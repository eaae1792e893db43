import Reckoner.Proofs.Conservation
import Reckoner.Proofs.Grammar.Acceptance
import Reckoner.Proofs.Shunting
import Reckoner.Token.Defect

/-!
# What waits in the yard

What lies on what in the yard between two tokens. Read `Yard.pending_of_advance` first. Behind any
tokens that the yard takes, well-formed or not, an operator lies on a looser one only, the
parentheses that wait are those that are open, and a sign finds nothing on top but a parenthesis.
Each token keeps this (`Yard.Keeps.step`), and so does a run. Inside of an expression, every name of
a function has its parenthesis directly on top unless it has just been taken, which is read off the
tokens that wait for a reader (`Grammar.Reader.called_waiting`).
-/

namespace Reckoner

namespace Token

variable {tokens : List Token} {token : Token}

/-- A token that is no closing parenthesis closes nothing. -/
theorem closes_concat (h : token.kind ≠ .closeParen) (depth : Nat) :
    closes depth (tokens ++ [token]) = closes depth tokens := by
  induction tokens generalizing depth with
  | nil =>
      obtain ⟨kind, position⟩ := token
      cases kind with
      | closeParen => exact absurd rfl h
      | _ => rfl
  | cons first rest ih =>
      obtain ⟨kind, position⟩ := first
      cases kind with
      | closeParen =>
          cases depth with
          | zero => rfl
          | succ depth => exact ih depth
      | openParen => exact ih (depth + 1)
      | _ => exact ih depth

/-- What is closed stays closed. -/
theorem closes_append_of_closes {depth : Nat} {rest : List Token} (h : closes depth tokens = true) :
    closes depth (tokens ++ rest) = true := by
  induction tokens generalizing depth with
  | nil => cases h
  | cons first tokens ih =>
      obtain ⟨kind, position⟩ := first
      cases kind with
      | closeParen =>
          cases depth with
          | zero => rfl
          | succ depth => exact ih h
      | _ => exact ih h

/-- A closing parenthesis behind tokens closes the first of several parentheses in front of them if
the tokens leave none of their own open and close all the others in front. -/
theorem closes_concat_closeParen (htoken : token.kind = .closeParen) {depth : Nat}
    (h : closes depth tokens = false) : closes depth (tokens ++ [token]) = true ↔
      unclosed tokens = [] ∧ ∀ outer < depth, closes outer tokens = true := by
  induction tokens generalizing depth with
  | nil =>
      cases depth with
      | zero =>
          refine iff_of_true (by simp [closes, htoken]) ⟨rfl, fun _ hlt => ?_⟩
          exact absurd hlt (Nat.not_lt_zero _)
      | succ depth =>
          refine iff_of_false (by simp [closes, htoken]) fun hall => ?_
          cases hall.2 0 (Nat.zero_lt_succ depth)
  | cons first rest ih =>
      obtain ⟨kind, position⟩ := first
      cases kind with
      | closeParen =>
          cases depth with
          | zero => cases h
          | succ depth =>
              rw [Nat.forall_lt_succ_left]
              exact (@ih depth h).trans (and_congr_right fun _ => (and_iff_right rfl).symm)
      | openParen =>
          have hfirst : unclosed (⟨.openParen, position⟩ :: rest) = [] ↔
              unclosed rest = [] ∧ closes 0 rest = true := by
            rw [unclosed_cons]
            cases closes 0 rest <;> simp
          have hrest := @ih (depth + 1) h
          rw [Nat.forall_lt_succ_left, ← and_assoc, ← hfirst] at hrest
          exact hrest
      | _ => exact ih h

/-- An opening parenthesis is open behind itself. -/
theorem unclosed_concat_openParen (h : token.kind = .openParen) :
    unclosed (tokens ++ [token]) = unclosed tokens ++ [token] := by
  have hclose : token.kind ≠ .closeParen := by simp [h]
  induction tokens with
  | nil => simp [unclosed, closes, h]
  | cons first rest ih =>
      rw [List.cons_append, unclosed_cons, unclosed_cons, closes_concat hclose, ih]
      split <;> rfl

/-- A token that is no parenthesis leaves the same ones open. -/
theorem unclosed_concat (h : token.kind.nesting = 0) :
    unclosed (tokens ++ [token]) = unclosed tokens := by
  have hopen : token.kind ≠ .openParen := fun hkind => by simp [hkind, Kind.nesting] at h
  have hclose : token.kind ≠ .closeParen := fun hkind => by simp [hkind, Kind.nesting] at h
  induction tokens with
  | nil => simp [unclosed, hopen]
  | cons first rest ih =>
      rw [List.cons_append, unclosed_cons, unclosed_cons, closes_concat hclose, ih]

/-- A closing parenthesis closes the last one that is open. -/
theorem unclosed_concat_closeParen (h : token.kind = .closeParen) :
    unclosed (tokens ++ [token]) = (unclosed tokens).dropLast := by
  induction tokens with
  | nil => simp [unclosed, h]
  | cons first rest ih =>
      rw [List.cons_append, unclosed_cons, unclosed_cons first rest, ih]
      cases hfirst : closes 0 rest with
      | true => simp [closes_append_of_closes hfirst]
      | false =>
          have hcloses : closes 0 (rest ++ [token]) = true ↔ unclosed rest = [] := by
            simpa using closes_concat_closeParen h hfirst
          cases hrest : unclosed rest with
          | nil =>
              rw [hcloses.2 hrest]
              by_cases hopening : first.kind = .openParen <;> simp [hopening]
          | cons second others =>
              have hnot : closes 0 (rest ++ [token]) = false := by
                rw [← Bool.not_eq_true, hcloses, hrest]
                exact List.cons_ne_nil _ _
              rw [hnot]
              split <;> simp

end Token

namespace Pending

open Token (Kind)

/-- The token that waits. -/
def token (pending : Pending) : Token := ⟨pending.kind, pending.position⟩

/-- The opening parentheses that wait, the latest first. -/
def openings (pending : List Pending) : List Token :=
  (pending.map token).filter fun token => token.kind = .openParen

/-- Of two operators, one directly on top of the other, the upper one binds more tightly. -/
def Climbs (pending : List Pending) : Prop :=
  pending.IsChain fun upper lower => ∀ op other, upper.kind = .operator op →
    lower.kind = .operator other → other.precedence < op.precedence

variable {pending taken left : List Pending} {top : Pending}

/-- What is no operator may wait on top. -/
theorem Climbs.cons (h : Climbs pending) (htop : ∀ op, top.kind ≠ .operator op) :
    Climbs (top :: pending) :=
  List.isChain_cons.2 ⟨fun _ _ op _ hop => absurd hop (htop op), h⟩

/-- There are two levels of binding only, so no three operators lie on top of each other. -/
theorem Climbs.not_three {above below : List Pending} {middle bottom : Pending}
    (h : Climbs (above ++ top :: middle :: bottom :: below)) :
    ¬ (top.kind.isOperator ∧ middle.kind.isOperator ∧ bottom.kind.isOperator) := by
  have hbound : ∀ op : Operator, op.precedence ≤ 1 := by
    intro op
    rw [op.precedence_eq]
    split <;> decide
  have hoperator : ∀ kind : Kind, kind.isOperator → ∃ op, kind = .operator op := by
    intro kind hkind
    cases kind with
    | operator op => exact ⟨op, rfl⟩
    | _ => cases hkind
  rintro ⟨htop, hmiddle, hbottom⟩
  obtain ⟨first, hfirst⟩ := hoperator _ htop
  obtain ⟨second, hsecond⟩ := hoperator _ hmiddle
  obtain ⟨third, hthird⟩ := hoperator _ hbottom
  obtain ⟨hupper, hrest⟩ := List.isChain_cons_cons.1 (List.isChain_append.1 h).2.1
  have hlower := (List.isChain_cons_cons.1 hrest).1 second third hsecond hthird
  have hlt := hupper first second hfirst hsecond
  have hle := hbound first
  omega

@[simp]
theorem openings_append (first second : List Pending) :
    openings (first ++ second) = openings first ++ openings second := by
  simp [openings]

/-- No parenthesis is among operators. -/
theorem openings_of_kinds {ops : List Operator} (h : taken.map kind = ops.map Kind.operator) :
    openings taken = [] := by
  induction taken generalizing ops with
  | nil => rfl
  | cons top rest ih =>
      cases ops with
      | nil => cases h
      | cons op ops =>
          obtain ⟨htop, hrest⟩ := List.cons_eq_cons.1 h
          obtain ⟨position, rfl⟩ := eq_operator_of_kind htop
          exact ih hrest

/-- The end of a group takes away its parenthesis, and no other one. -/
theorem openings_closeGroup (position : Position) (rest : List Pending) :
    openings (closeGroup (openParen position :: rest)).2 = openings rest := by
  match rest with
  | [] | operator _ _ :: _ | openParen _ :: _ | builtin _ _ :: _ => rfl

/-- An operator leaves none on top that binds as tightly. -/
theorem precedence_lt_of_release (precedence : Nat) (pending : List Pending) :
    ∀ top ∈ (release precedence pending).2.head?, ∀ op, top.kind = .operator op →
      op.precedence < precedence := by
  induction pending with
  | nil => simp [release]
  | cons first rest ih =>
      cases first with
      | operator op position =>
          by_cases hbinds : precedence ≤ op.precedence
          · simpa [release, hbinds] using ih
          · simpa [release, hbinds, kind] using Nat.lt_of_not_le hbinds
      | builtin | openParen => simp [release, kind]

end Pending

open Pending (Climbs)

namespace Yard

/-- What a yard keeps behind any tokens that it has taken. -/
structure Keeps (front : List Token) (yard : Yard) : Prop where
  /-- An operator would be a sign where one expects an operand. -/
  atStart : yard.atStart = Token.expectsOperand front
  climbs : Climbs yard.pending
  /-- The parentheses that wait are those that are open. -/
  openings : Pending.openings yard.pending = (Token.unclosed front).reverse
  /-- Nothing but a parenthesis waits directly below a sign. -/
  head?_kind : yard.atStart → ∀ top ∈ yard.pending.head?, top.kind = .openParen
  /-- The name of a function that has just been taken waits on top. -/
  head?_of_builtin : ∀ last ∈ front.getLast?, ∀ function, last.kind = .builtin function →
    yard.pending.head? = some (.builtin function last.position)

theorem Keeps.start : Keeps [] .start :=
  ⟨rfl, .nil, rfl, by simp [Yard.start], by simp⟩

/-- Every token that is taken keeps it. -/
theorem Keeps.step {front : List Token} {yard next : Yard} {token : Token}
    {instructions : List Instruction} (h : Keeps front yard)
    (hstep : yard.step token = .ok (instructions, next)) : Keeps (front ++ [token]) next := by
  obtain ⟨-, -, -, -, -, hstart⟩ := exists_of_step hstep h.atStart
  obtain ⟨kind, position⟩ := token
  cases kind with
  | number | name =>
      cases hstep
      refine ⟨hstart, h.climbs, ?_, by simp, by simp⟩
      rw [Token.unclosed_concat rfl]
      exact h.openings
  | builtin function =>
      cases hstep
      refine ⟨hstart, h.climbs.cons (by simp [Pending.kind]), ?_, by simp, by simp⟩
      rw [Token.unclosed_concat rfl, ← h.openings]
      rfl
  | openParen =>
      cases hstep
      refine ⟨hstart, h.climbs.cons (by simp [Pending.kind]), ?_, by simp [Pending.kind], by simp⟩
      rw [Token.unclosed_concat_openParen rfl, List.reverse_append, ← h.openings]
      rfl
  | operator op =>
      cases hstep
      obtain ⟨taken, ops, hops, hsplit⟩ := Pending.exists_release_eq op.precedence yard.pending
      have hleft : (Pending.release op.precedence yard.pending).2 <:+ yard.pending :=
        ⟨taken, hsplit.symm⟩
      refine ⟨hstart, List.isChain_cons.2 ⟨?_, h.climbs.suffix hleft⟩, ?_, by simp, by simp⟩
      · intro lower hlower upper other hupper hother
        cases hupper
        exact Pending.precedence_lt_of_release _ _ lower hlower other hother
      · rw [Token.unclosed_concat rfl, ← h.openings, hsplit, Pending.openings_append,
          Pending.openings_of_kinds hops, ← hsplit]
        rfl
  | comma =>
      obtain ⟨⟨released, left⟩, hreleased, heq⟩ := bind_eq_ok_iff.1 hstep
      cases heq
      obtain ⟨taken, ops, hops, hsplit, opened, rest, rfl⟩ :=
        Pending.exists_of_releaseGroup hreleased
      refine ⟨hstart, h.climbs.suffix ⟨taken, hsplit.symm⟩, ?_, by simp [Pending.kind], by simp⟩
      rw [Token.unclosed_concat rfl, ← h.openings, hsplit, Pending.openings_append,
        Pending.openings_of_kinds hops, List.nil_append]
  | closeParen =>
      obtain ⟨⟨released, left⟩, hreleased, heq⟩ := bind_eq_ok_iff.1 hstep
      cases heq
      obtain ⟨taken, ops, hops, hsplit, opened, rest, rfl⟩ :=
        Pending.exists_of_releaseGroup hreleased
      have hleft := (Pending.closeGroup_suffix (.openParen opened :: rest)).trans
        ⟨taken, hsplit.symm⟩
      refine ⟨hstart, h.climbs.suffix hleft, ?_, by simp, by simp⟩
      show Pending.openings (Pending.closeGroup (.openParen opened :: rest)).2 = _
      rw [Token.unclosed_concat_closeParen rfl, ← List.tail_reverse, ← h.openings, hsplit,
        Pending.openings_append, Pending.openings_of_kinds hops, Pending.openings_closeGroup]
      rfl

/-- All tokens that are taken keep it. -/
theorem Keeps.advance {front tokens : List Token} {yard last : Yard}
    {instructions : List Instruction} (h : Keeps front yard)
    (hrun : yard.advance tokens = .ok (instructions, last)) : Keeps (front ++ tokens) last := by
  induction tokens generalizing front yard instructions with
  | nil =>
      cases hrun
      rwa [List.append_nil]
  | cons token rest ih =>
      obtain ⟨⟨first, next⟩, hstep, hrun⟩ := bind_eq_ok_iff.1 hrun
      obtain ⟨⟨following, final⟩, hrest, heq⟩ := bind_eq_ok_iff.1 hrun
      cases heq
      rw [← List.singleton_append, ← List.append_assoc]
      exact ih (h.step hstep) hrest

end Yard

namespace Grammar

open Token (Kind)
open Reader (Run)

/-- Directly on top of the name of a function, nothing waits but a parenthesis. -/
def Called (kinds : List Kind) : Prop :=
  kinds.IsChain fun upper lower => ∀ function, lower = .builtin function → upper = .openParen

/-- The names of functions that wait are called, and none of them waits on top. -/
structure Served (kinds : List Kind) : Prop where
  called : Called kinds
  head?_ne : ∀ function, kinds.head? ≠ some (.builtin function)

variable {kinds : List Kind}

/-- Anything may wait on top. -/
theorem Served.called_cons (h : Served kinds) (top : Kind) : Called (top :: kinds) :=
  List.isChain_cons.2
    ⟨fun _ hlower function hfunction => absurd (hfunction ▸ hlower) (h.head?_ne function), h.called⟩

/-- Operators may wait on top, and then the names are served still. -/
theorem Served.operators (h : Served kinds) (ops : List Operator) :
    Served (ops.map Kind.operator ++ kinds) := by
  induction ops with
  | nil => exact h
  | cons op ops ih => exact ⟨ih.called_cons _, by simp⟩

/-- A parenthesis on top serves the name below. -/
theorem Called.openParen (h : Called kinds) : Served (.openParen :: kinds) :=
  ⟨List.isChain_cons.2 ⟨fun _ _ _ _ => rfl, h⟩, by simp⟩

/-- The names of the functions around an expression are served. -/
theorem Enclosure.served_allWaiting (enclosures : List Enclosure) :
    Served (allWaiting enclosures) := by
  induction enclosures with
  | nil => exact ⟨.nil, by simp [allWaiting]⟩
  | cons enclosure rest ih =>
      have hspot := ih.operators enclosure.spot.waiting
      rw [allWaiting, List.cons_append, List.cons_append, List.append_assoc]
      refine Called.openParen ?_
      cases enclosure.opening with
      | group => exact hspot.called
      | call function earlier => exact hspot.called_cons _

/-- The names of functions that wait while an expression is read are called, and a name on top has
just been read. -/
theorem Reader.called_waiting (reader : Reader) : Called reader.waiting ∧
    ∀ function, reader.waiting.head? = some (.builtin function) →
      reader.kinds.getLast? = some (.builtin function) := by
  cases reader with
  | operand spot enclosures =>
      have h := (Enclosure.served_allWaiting enclosures).operators spot.waiting
      exact ⟨h.called, fun function hhead => absurd hhead (h.head?_ne function)⟩
  | operator sum product enclosures =>
      have h := (Enclosure.served_allWaiting enclosures).operators (product.waiting ++ sum.waiting)
      exact ⟨h.called, fun function hhead => absurd hhead (h.head?_ne function)⟩
  | arguments function spot enclosures =>
      have h := (Enclosure.served_allWaiting enclosures).operators spot.waiting
      refine ⟨h.called_cons _, fun other hhead => ?_⟩
      rw [kinds, List.getLast?_concat]
      exact hhead

end Grammar

namespace Yard

open Pending (openings)

/-- In front of the rest of an expression, every name that waits is called or has just been
taken. -/
theorem exists_advance_of_check {front back : List Token}
    (h : Token.check (front ++ back) = .ok ()) :
    ∃ instructions yard, start.advance front = .ok (instructions, yard) ∧
      Grammar.Called (yard.pending.map Pending.kind) ∧
      ∀ function, (yard.pending.map Pending.kind).head? = some (.builtin function) →
        (front.map Token.kind).getLast? = some (.builtin function) := by
  by_cases hnil : front ++ back = []
  · obtain ⟨rfl, rfl⟩ := List.append_eq_nil_iff.1 hnil
    exact ⟨[], start, rfl, .nil, by simp [start]⟩
  · obtain ⟨phrase, hphrase⟩ := (Grammar.check_eq_ok_iff hnil).1 h
    have hrun := phrase.run []
    rw [hphrase, List.map_append] at hrun
    obtain ⟨reader, hfront, -⟩ := hrun.exists_of_append
    have hstart : Grammar.Holds start .start := ⟨rfl, rfl⟩
    obtain ⟨instructions, yard, hadvance, hholds, -⟩ := hstart.run hfront
    have hkinds : reader.kinds = front.map Token.kind := hfront.kinds
    obtain ⟨hcalled, hhead⟩ := reader.called_waiting
    rw [← hholds.pending, hkinds] at hhead
    exact ⟨instructions, yard, hadvance, hholds.pending ▸ hcalled, hhead⟩

/-- Whatever the yard has taken, an operator that lies directly on another one binds more tightly,
so that no three of them lie on top of each other. The parentheses that wait are those that are
open, in order, and nothing but one of them lies on top where an operator would be a sign. From this
yard the run goes on. If the tokens form an expression, the yard takes each of them, and every name
of a function that waits has just been taken or lies directly below a parenthesis. -/
theorem pending_of_advance (front back : List Token) :
    (∀ instructions yard, start.advance front = .ok (instructions, yard) →
      start.run (front ++ back) = (yard.run back).map (instructions ++ ·) ∧
      Climbs yard.pending ∧
      (∀ above top middle bottom below,
        yard.pending = above ++ top :: middle :: bottom :: below →
          ¬ (top.kind.isOperator ∧ middle.kind.isOperator ∧ bottom.kind.isOperator)) ∧
      openings yard.pending = (Token.unclosed front).reverse ∧
      (Token.expectsOperand front → ∀ top ∈ yard.pending.head?, top.kind = .openParen)) ∧
    (Token.check (front ++ back) = .ok () →
      ∃ instructions yard, start.advance front = .ok (instructions, yard) ∧
        ∀ above function name below,
          yard.pending = above ++ .builtin function name :: below →
            above = [] ∧ front.getLast? = some ⟨.builtin function, name⟩ ∨
            ∃ opened, above.getLast? = some (.openParen opened)) := by
  constructor
  · intro instructions yard hadvance
    have hkeeps : Keeps front yard := Keeps.start.advance hadvance
    refine ⟨?_, hkeeps.climbs, ?_, hkeeps.openings, ?_⟩
    · rw [run_append, hadvance]
      show (yard.run back >>= fun following => .ok (instructions ++ following)) = _
      cases yard.run back <;> rfl
    · rintro above top middle bottom below hsplit
      exact (hsplit ▸ hkeeps.climbs).not_three
    · rw [← hkeeps.atStart]
      exact hkeeps.head?_kind
  · intro hcheck
    obtain ⟨instructions, yard, hadvance, hcalled, hhead⟩ := exists_advance_of_check hcheck
    have hkeeps : Keeps front yard := Keeps.start.advance hadvance
    refine ⟨instructions, yard, hadvance, fun above function name below hsplit => ?_⟩
    rcases List.eq_nil_or_concat' above with rfl | ⟨above, upper, rfl⟩
    · have hlast := hhead function (by rw [hsplit]; rfl)
      rw [List.getLast?_map, Option.map_eq_some_iff] at hlast
      obtain ⟨⟨kind, position⟩, hlast, rfl⟩ := hlast
      have htop := hkeeps.head?_of_builtin _ hlast function rfl
      rw [hsplit] at htop
      cases htop
      exact .inl ⟨rfl, hlast⟩
    · rw [hsplit, List.map_append, List.map_append] at hcalled
      have hkind : upper.kind = .openParen :=
        (List.isChain_append.1 hcalled).2.2 upper.kind (by simp) _ rfl function rfl
      obtain ⟨opened, rfl⟩ := Pending.eq_openParen_of_kind hkind
      exact .inr ⟨opened, by simp⟩

/-- Behind `a-b*Sin(c`, the operators lie below the name and its parenthesis. -/
example : start.advance [⟨.name "a", ⟨1, 1⟩⟩, ⟨.operator .sub, ⟨2, 1⟩⟩, ⟨.name "b", ⟨3, 1⟩⟩,
    ⟨.operator .mul, ⟨4, 1⟩⟩, ⟨.builtin .sin, ⟨5, 1⟩⟩, ⟨.openParen, ⟨8, 1⟩⟩,
    ⟨.name "c", ⟨9, 1⟩⟩] =
      .ok ([.load "a", .load "b", .load "c"], ⟨[.openParen ⟨8, 1⟩, .builtin .sin ⟨5, 1⟩,
        .operator .mul ⟨4, 1⟩, .operator .sub ⟨2, 1⟩], false⟩) := by
  rfl

end Yard

end Reckoner
