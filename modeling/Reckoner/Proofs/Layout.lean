import Reckoner.Proofs.Relocation

/-!
# Layout of a source text

White space between lexemes does not matter. Two source texts whose lexemes have the same texts
compile alike, which is `compile_layout`: to the same program, or to errors that differ in the
position only and stand at lexemes with the same index. For this the lexemes of both texts are seen
as the same lexemes at two places each, where the first one is their index.
-/

namespace Reckoner

namespace Lexeme

/-- Proper lexemes of the same text have the same category. -/
theorem IsProper.category_eq {first second : Lexeme} (h : first.IsProper) (h' : second.IsProper)
    (htext : first.text = second.text) : first.category = second.category := by
  obtain ⟨c, tail, hc, -⟩ := h.isRun
  rw [← h.ofChar_eq c (by simp [hc]), ← h'.ofChar_eq c (by simp [← htext, hc])]

/-- Lexemes that stand at their index. -/
def indexed (lexemes : List Lexeme) : List Lexeme :=
  lexemes.mapIdx fun index lexeme => { lexeme with position := ⟨index, 0⟩ }

/-- The move of an index to the position of the lexeme with this index. -/
def placement (lexemes : List Lexeme) (position : Position) : Position :=
  (lexemes[position.column]?.map Lexeme.position).getD position

variable {lexemes others : List Lexeme}

/-- Lexemes that stand at their index are proper if they are so at their own positions. -/
theorem isProper_of_mem_indexed (h : ∀ lexeme ∈ lexemes, lexeme.IsProper) :
    ∀ lexeme ∈ indexed lexemes, lexeme.IsProper := by
  intro lexeme hlexeme
  obtain ⟨index, hindex, rfl⟩ := List.mem_mapIdx.1 hlexeme
  obtain ⟨hrun, hcategory, hne⟩ := h _ (List.getElem_mem hindex)
  exact ⟨hrun, hcategory, hne⟩

/-- Lexemes of the same texts are the same lexemes at their index, moved to their positions. -/
theorem map_relocate_indexed (h : ∀ lexeme ∈ lexemes, lexeme.IsProper)
    (hothers : ∀ lexeme ∈ others, lexeme.IsProper) (htexts : lexemes.map text = others.map text) :
    (indexed lexemes).map (relocate (placement others)) = others := by
  have hlength : lexemes.length = others.length := by
    simpa using congrArg List.length htexts
  refine List.ext_getElem (by simp [indexed, hlength]) fun index _ hother => ?_
  have hlexeme : index < lexemes.length := hlength ▸ hother
  have htext : lexemes[index].text = others[index].text := by
    have hget := List.getElem_of_eq htexts (by simpa using hlexeme)
    simpa using hget
  have hcategory := (h _ (List.getElem_mem hlexeme)).category_eq
    (hothers _ (List.getElem_mem hother)) htext
  simp [indexed, relocate, placement, htext, hcategory, hother]

/-- A lexeme that stands at its index moves to the position of the lexeme with this index. -/
theorem exists_placement_eq {left right : List Lexeme} {lexeme : Lexeme}
    (hsplit : indexed lexemes = left ++ lexeme :: right)
    (hlength : others.length = lexemes.length) :
    ∃ other, others[left.length]? = some other ∧
      placement others lexeme.position = other.position := by
  have hget : (indexed lexemes)[left.length]? = some lexeme := by simp [hsplit]
  simp only [indexed, List.getElem?_mapIdx, Option.map_eq_some_iff] at hget
  obtain ⟨original, horiginal, rfl⟩ := hget
  obtain ⟨hlt, -⟩ := List.getElem?_eq_some_iff.1 horiginal
  have hother : left.length < others.length := hlength ▸ hlt
  exact ⟨others[left.length], List.getElem?_eq_getElem hother, by simp [placement, hother]⟩

end Lexeme

namespace Program

/-- Texts whose lexemes have the same texts compile to the same program, are both without lexemes,
or have the same fault at lexemes with the same index. -/
theorem compile_layout {source other : String} {lexemes others : List Lexeme}
    (h : Lexeme.ofSource source = .ok lexemes) (hother : Lexeme.ofSource other = .ok others)
    (htexts : lexemes.map Lexeme.text = others.map Lexeme.text) :
    (∃ program, compile source = .ok program ∧ compile other = .ok program) ∨
    (compile source = .error .emptyExpression ∧ compile other = .error .emptyExpression) ∨
    ∃ (cause : Fault) (index : Nat) (first second : Lexeme),
      lexemes[index]? = some first ∧ others[index]? = some second ∧
        compile source = .error (.fault cause first.position) ∧
        compile other = .error (.fault cause second.position) := by
  rw [Lexeme.ofSource_eq_scan] at h hother
  obtain ⟨rfl, rfl⟩ := And.intro (Except.ok.inj h) (Except.ok.inj hother)
  have hproper : ∀ text : String, ∀ lexeme ∈ Lexeme.scan text, lexeme.IsProper :=
    fun _ _ hlexeme => Lexeme.isProper_of_mem_scanFrom hlexeme
  have hlength : (Lexeme.scan other).length = (Lexeme.scan source).length := by
    simpa using (congrArg List.length htexts).symm
  have hindexed := Lexeme.isProper_of_mem_indexed (hproper source)
  -- either text compiles as the lexemes at their index do, up to the move of an error
  have hfirst : compile source = relocated (Lexeme.placement (Lexeme.scan source)) id
      (ofLexemes (Lexeme.indexed (Lexeme.scan source))) := by
    rw [compile_eq_ofLexemes, ← ofLexemes_relocate _ hindexed,
      Lexeme.map_relocate_indexed (hproper source) (hproper source) rfl]
  have hsecond : compile other = relocated (Lexeme.placement (Lexeme.scan other)) id
      (ofLexemes (Lexeme.indexed (Lexeme.scan source))) := by
    rw [compile_eq_ofLexemes, ← ofLexemes_relocate _ hindexed,
      Lexeme.map_relocate_indexed (hproper source) (hproper other) htexts]
  rw [hfirst, hsecond]
  cases hcompile : ofLexemes (Lexeme.indexed (Lexeme.scan source)) with
  | ok program => exact .inl ⟨program, rfl, rfl⟩
  | error error =>
      rcases Lexeme.blames_of_ofLexemes hindexed hcompile with ⟨rfl, -⟩ | hblames
      · exact .inr (.inl ⟨rfl, rfl⟩)
      · obtain ⟨cause, left, lexeme, right, hsplit, rfl, -⟩ := hblames
        obtain ⟨first, hget, hplace⟩ := Lexeme.exists_placement_eq hsplit rfl
        obtain ⟨second, hget', hplace'⟩ := Lexeme.exists_placement_eq hsplit hlength
        refine .inr (.inr ⟨cause, left.length, first, second, hget, hget', ?_, ?_⟩)
        · rw [relocated, CompileError.relocate, hplace]
        · rw [relocated, CompileError.relocate, hplace']

/-- An operand that is missing on one line is missing at the same lexeme on two lines. -/
theorem compile_layout_two_lines :
    let source := "a+(b*)"
    let other := "a +\n( b\t*)"
    let lexemes : List Lexeme := [⟨"a", .letter, ⟨1, 1⟩⟩, ⟨"+", .operator, ⟨2, 1⟩⟩,
      ⟨"(", .parenthesis, ⟨3, 1⟩⟩, ⟨"b", .letter, ⟨4, 1⟩⟩, ⟨"*", .operator, ⟨5, 1⟩⟩,
      ⟨")", .parenthesis, ⟨6, 1⟩⟩]
    let others : List Lexeme := [⟨"a", .letter, ⟨1, 1⟩⟩, ⟨"+", .operator, ⟨3, 1⟩⟩,
      ⟨"(", .parenthesis, ⟨1, 2⟩⟩, ⟨"b", .letter, ⟨3, 2⟩⟩, ⟨"*", .operator, ⟨5, 2⟩⟩,
      ⟨")", .parenthesis, ⟨6, 2⟩⟩]
    Lexeme.ofSource source = .ok lexemes ∧ Lexeme.ofSource other = .ok others ∧
      lexemes.map Lexeme.text = others.map Lexeme.text ∧
      ((∃ program, compile source = .ok program ∧ compile other = .ok program) ∨
      (compile source = .error .emptyExpression ∧ compile other = .error .emptyExpression) ∨
      ∃ (cause : Fault) (index : Nat) (first second : Lexeme),
        lexemes[index]? = some first ∧ others[index]? = some second ∧
          compile source = .error (.fault cause first.position) ∧
          compile other = .error (.fault cause second.position)) := by
  intro source other lexemes others
  have h : Lexeme.ofSource source = .ok lexemes := by cbv
  have hother : Lexeme.ofSource other = .ok others := by cbv
  exact ⟨h, hother, rfl, compile_layout h hother rfl⟩

end Program

end Reckoner
