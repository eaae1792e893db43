import Mathlib.Data.List.Induction
import Reckoner.Proofs.Compilation
import Reckoner.Proofs.Evaluation
import Reckoner.Proofs.Grammar.Names

/-!
# What an expression depends on

The names of a compiled expression decide whether it has a value, and their values decide which one.
Read `Expression.names_exact` first. That other names do not matter holds of every program; that
each of these names matters, and that they stand in the order of the source text, holds of the
programs of expressions.
-/

namespace Reckoner

/-- Several texts, each once, in the order in which they first occur. -/
structure ListsOnce (texts names : List String) : Prop where
  nodup : names.Nodup
  mem_iff : ∀ name, name ∈ names ↔ name ∈ texts
  order : names.Pairwise fun first second => texts.idxOf first < texts.idxOf second

/-- Takes a text that is not among the names. -/
def noteText (names : List String) (text : String) : List String :=
  if text ∈ names then names else names ++ [text]

namespace ListsOnce

variable {texts names : List String}

theorem nil : ListsOnce [] [] := ⟨.nil, fun _ => Iff.rfl, .nil⟩

/-- A further text is listed behind all others, if it is not listed yet. -/
theorem concat (h : ListsOnce texts names) (text : String) :
    ListsOnce (texts ++ [text]) (noteText names text) := by
  have hindex : ∀ name ∈ names, (texts ++ [text]).idxOf name = texts.idxOf name := fun name hname =>
    List.idxOf_append_of_mem ((h.mem_iff name).1 hname)
  have horder : names.Pairwise fun first second =>
      (texts ++ [text]).idxOf first < (texts ++ [text]).idxOf second :=
    h.order.imp_of_mem fun hfirst hsecond hlt => by rwa [hindex _ hfirst, hindex _ hsecond]
  unfold noteText
  split
  · rename_i hmem
    refine ⟨h.nodup, fun name => ?_, horder⟩
    rw [List.mem_append, List.mem_singleton, h.mem_iff]
    refine ⟨.inl, ?_⟩
    rintro (hname | rfl)
    · exact hname
    · exact (h.mem_iff name).1 hmem
  · rename_i hnot
    have hnew : (texts ++ [text]).idxOf text = texts.length := by
      simp [List.idxOf_append_of_notMem (mt (h.mem_iff text).2 hnot)]
    refine ⟨?_, fun name => by simp [h.mem_iff], ?_⟩
    · refine h.nodup.append (List.nodup_singleton text) ?_
      simpa [List.disjoint_singleton] using hnot
    · refine List.pairwise_append.2 ⟨horder, List.pairwise_singleton _ _, ?_⟩
      intro first hfirst second hsecond
      rw [List.mem_singleton.1 hsecond, hindex first hfirst, hnew]
      exact List.idxOf_lt_length_of_mem ((h.mem_iff first).1 hfirst)

/-- Taking note of texts one after the other lists each of them once. -/
theorem foldl_noteText (texts : List String) : ListsOnce texts (texts.foldl noteText []) := by
  induction texts using List.reverseRecOn with
  | nil => exact nil
  | append_singleton texts text ih =>
      rw [List.foldl_append]
      exact ih.concat text

end ListsOnce

/-- The first text with a property is also the first one in the list of the texts without
repetition. -/
theorem find?_foldl_noteText (p : String → Bool) (texts : List String) :
    (texts.foldl noteText []).find? p = texts.find? p := by
  induction texts using List.reverseRecOn with
  | nil => rfl
  | append_singleton texts text ih =>
      rw [List.foldl_append, List.foldl_cons, List.foldl_nil, noteText, List.find?_append, ← ih]
      split
      · rename_i hmem
        cases hfind : (texts.foldl noteText []).find? p with
        | some name => rfl
        | none =>
            -- a text that is listed already lacks the property, like the others
            have hnot := List.find?_eq_none.1 hfind text hmem
            simp [hnot]
      · exact List.find?_append

/-- The tokens of a source text stand one behind the other. -/
theorem Token.pairwise_precedes {source : String} {tokens : List Token}
    (h : ofSource source = .ok tokens) :
    tokens.Pairwise fun first second => first.position.Precedes second.position := by
  rw [ofSource_eq_ofLexemes] at h
  have hpositions : (Lexeme.scan source).map Lexeme.position = tokens.map Token.position := by
    rw [← List.forall₂_eq_eq_eq, List.forall₂_map_left_iff, List.forall₂_map_right_iff]
    exact (mapM_eq_ok_iff.1 h).imp fun _ _ hlexeme => (ofLexeme_eq_ok_iff.1 hlexeme).2
  have hlexemes := Lexeme.pairwise_precedes .start source.toList
  rw [← Lexeme.scan, ← List.pairwise_map, hpositions, List.pairwise_map] at hlexemes
  exact hlexemes

namespace Bindings

/-- Some names have no value exactly if there is a first one that has none. -/
theorem firstUnbound?_ne_none_iff {bindings : Bindings} {names : List String} :
    bindings.firstUnbound? names ≠ none ↔
      ∃ name ∈ names, bindings.value? name = none ∧ Constant.value? name = none := by
  simp only [firstUnbound?, ne_eq, List.find?_eq_none, not_forall, not_not,
    Bool.and_eq_true, Option.isNone_iff_eq_none, exists_prop]

end Bindings

namespace Program

variable {program : Program}

/-- The names of a program. -/
theorem names_eq_foldl (program : Program) :
    program.names = (program.instructions.filterMap Instruction.name?).foldl noteText [] := rfl

/-- A program has every name that it loads. -/
theorem mem_names {name : String} (h : .load name ∈ program.instructions) :
    name ∈ program.names := by
  rw [names_eq_foldl, (ListsOnce.foldl_noteText _).mem_iff]
  exact List.mem_filterMap.2 ⟨.load name, h, rfl⟩

end Program

namespace Expression

/-- An expression has the program of the tree of its tokens, and the names of the tokens. -/
theorem exists_isSum {source : String} {expression : Expression}
    (h : compile source = .ok expression) :
    ∃ tokens tree, Token.ofSource source = .ok tokens ∧
      Grammar.IsSum (tokens.map Token.kind) tree ∧ expression.program = ⟨tree.postorder⟩ ∧
        tree.postorder.filterMap Instruction.name? =
          tokens.filterMap fun token => token.kind.name? := by
  obtain ⟨program, hprogram, heq⟩ := bind_eq_ok_iff.1 h
  cases heq
  obtain ⟨kinds, tree, hkinds, hsum, rfl⟩ := Grammar.compile_iff_isSum.1 hprogram
  obtain ⟨tokens, htokens, rfl⟩ := Token.hasKinds_iff_ofSource.1 hkinds
  refine ⟨tokens, tree, htokens, hsum, rfl, ?_⟩
  rw [hsum.names, List.filterMap_map]
  rfl

/-- The names of an expression are the texts of the variables among its tokens, each once, in the
order of the source text. Bindings that agree on them give the same result. There is no result
exactly if one of them is neither bound nor the name of a constant, and then the first such name is
the error. -/
theorem names_exact {source : String} {expression : Expression}
    (h : compile source = .ok expression) :
    (∃ tokens, Token.ofSource source = .ok tokens ∧
      tokens.Pairwise (fun first second => first.position.Precedes second.position) ∧
        ListsOnce (tokens.filterMap fun token => token.kind.name?) expression.names) ∧
    (∀ bindings other : Bindings,
      (∀ name ∈ expression.names, bindings.resolve? name = other.resolve? name) →
        expression.evaluate bindings = expression.evaluate other) ∧
    ∀ bindings : Bindings,
      ((∃ error, expression.evaluate bindings = .error error) ↔ ∃ name ∈ expression.names,
        bindings.value? name = none ∧ Constant.value? name = none) ∧
      ∀ error, expression.evaluate bindings = .error error → ∃ name,
        bindings.firstUnbound? expression.names = some name ∧
          error = .missingVariable name := by
  obtain ⟨tokens, tree, htokens, hsum, hprogram, htexts⟩ := exists_isSum h
  have hnames : expression.names =
      (tokens.filterMap fun token => token.kind.name?).foldl noteText [] := by
    rw [names, Program.names_eq_foldl, hprogram, htexts]
  have hdecides : ∀ bindings : Bindings,
      bindings.Decides expression.names (expression.evaluate bindings) := by
    intro bindings
    have htree : bindings.Decides _ (tree.evaluate bindings) :=
      tree.decides_evaluate hsum.isSaturated
    rw [htexts] at htree
    rw [evaluate, hprogram, tree.execute_postorder bindings hsum.isSaturated, hnames,
      Bindings.Decides, Bindings.firstUnbound?, find?_foldl_noteText]
    exact htree
  refine ⟨⟨tokens, htokens, Token.pairwise_precedes htokens, ?_⟩, fun bindings other => ?_, ?_⟩
  · rw [hnames]
    exact ListsOnce.foldl_noteText _
  · exact fun hagree => Program.execute_congr fun name hload =>
      hagree name (Program.mem_names hload)
  · intro bindings
    rw [← Bindings.firstUnbound?_ne_none_iff]
    cases hfirst : bindings.firstUnbound? expression.names with
    | none =>
        obtain ⟨value, hvalue⟩ := (hdecides bindings).exists_ok hfirst
        simp [hvalue]
    | some name =>
        have herror := (hdecides bindings).eq_error hfirst
        simp [herror]

/-- The value of `y * (x - y) + pi` depends on `y` first, which is the error if nothing is bound. -/
theorem names_exact_repeated :
    let source := "y*(x-y)+pi"
    let program : Program := ⟨[.load "y", .load "x", .load "y", .apply (.operator .sub),
      .apply (.operator .mul), .load "pi", .apply (.operator .add)]⟩
    let expression : Expression := ⟨source, program⟩
    compile source = .ok expression ∧ expression.names = ["y", "x", "pi"] ∧
      (∀ bindings other : Bindings,
        (∀ name ∈ ["y", "x", "pi"], bindings.resolve? name = other.resolve? name) →
          expression.evaluate bindings = expression.evaluate other) ∧
      ∃ error, expression.evaluate .empty = .error error ∧
        error = .missingVariable "y" := by
  intro source program expression
  have hcompile : compile source = .ok expression := by cbv
  have hnames : expression.names = ["y", "x", "pi"] := by decide
  obtain ⟨-, hcongr, hfails⟩ := names_exact hcompile
  obtain ⟨error, herror⟩ := (hfails .empty).1.2 ⟨"y", by decide, rfl, by decide⟩
  obtain ⟨name, hname, rfl⟩ := (hfails .empty).2 error herror
  refine ⟨hcompile, hnames, fun bindings other hagree => ?_, _, herror, ?_⟩
  · refine hcongr bindings other ?_
    rw [hnames]
    exact hagree
  · rw [hnames] at hname
    cases hname
    rfl

end Expression

end Reckoner
