import Reckoner.Proofs.Source.Parentheses
import Reckoner.Source.Pairing

/-!
# The count of the parentheses

The count of the parentheses of a source text, which is done on its characters, refuses the text
exactly if it has not as many of either kind, and blames one of its lexemes. This is
`checkBalance_exact`. The parentheses that the count holds as unanswered are those that remain free
when every closing one is paired with the nearest free opening one before it (`Balance.Tracks`).
There is one such pairing, which `Parenthesis.Leaves.concat` extends from text to text.
-/

namespace Reckoner

namespace Parenthesis

variable {texts : List String} {text : String} {partner? : Nat → Option Nat}
  {place index : Nat} {free : List Nat}

namespace IsPairing

/-- Only places in the sequence have partners. -/
theorem eq_none (h : IsPairing texts partner?) (hle : texts.length ≤ place) :
    partner? place = none := by
  refine Option.eq_none_iff_forall_ne_some.2 fun index hindex => ?_
  have hplace := ((h place index).1 hindex).1
  rw [List.getElem?_eq_none hle] at hplace
  cases hplace

/-- What is free at the end is nobody's partner. -/
theorem ne_some_of_isFree (h : IsPairing texts partner?)
    (hfree : IsFree texts partner? texts.length index) (place : Nat) :
    partner? place ≠ some index := by
  by_cases hlt : place < texts.length
  · exact hfree.2.2 place hlt
  · rw [h.eq_none (Nat.le_of_not_lt hlt)]
    exact (Option.some_ne_none index).symm

/-- The pairing of a sequence is determined, from the front to the back. -/
theorem unique {other? : Nat → Option Nat} (h : IsPairing texts partner?)
    (hother : IsPairing texts other?) : other? = partner? := by
  funext place
  induction place using Nat.strong_induction_on with
  | _ place ih =>
      have hfree : ∀ index,
          IsFree texts other? place index ↔ IsFree texts partner? place index := by
        intro index
        refine and_congr_right fun _ => and_congr_right fun _ => ?_
        exact forall₂_congr fun earlier hlt => by rw [ih earlier hlt]
      refine Option.ext fun index => ?_
      rw [hother place index, h place index]
      simp only [hfree]

end IsPairing

/-- What is free before a place does not depend on the last text, nor on its partner. -/
theorem isFree_concat {next : Option Nat} (hle : place ≤ texts.length) :
    IsFree (texts ++ [text]) (Function.update partner? texts.length next) place index ↔
      IsFree texts partner? place index := by
  refine and_congr_right fun hlt => ?_
  rw [List.getElem?_append_left (by omega)]
  refine and_congr_right fun _ => forall₂_congr fun earlier hearlier => ?_
  rw [Function.update_of_ne (by omega)]

/-- A pairing goes on with a partner for the last text. -/
theorem IsPairing.concat {next : Option Nat} (h : IsPairing texts partner?)
    (hnext : ∀ index, next = some index ↔ text = ")" ∧
      IsFree texts partner? texts.length index ∧
        ∀ other, IsFree texts partner? texts.length other → other ≤ index) :
    IsPairing (texts ++ [text]) (Function.update partner? texts.length next) := by
  intro place index
  rcases Nat.lt_trichotomy place texts.length with hlt | rfl | hlt
  · rw [Function.update_of_ne (by omega), List.getElem?_append_left hlt, h place index]
    simp only [isFree_concat (Nat.le_of_lt hlt)]
  · rw [Function.update_self, hnext, List.getElem?_concat_length, Option.some.injEq]
    simp only [isFree_concat (Nat.le_refl _)]
  · rw [Function.update_of_ne (by omega), h.eq_none (Nat.le_of_lt hlt),
      List.getElem?_eq_none (by simpa using hlt)]
    simp

/-- Behind the last text, this text is free if it is an opening parenthesis, and what was free in
front of it still is if it is not its partner. -/
theorem isFree_succ {next : Option Nat} (h : IsPairing texts partner?)
    (hnext : next ≠ some texts.length) :
    IsFree (texts ++ [text]) (Function.update partner? texts.length next) (texts.length + 1) index ↔
      index = texts.length ∧ text = "(" ∨
        IsFree texts partner? texts.length index ∧ next ≠ some index := by
  have hall : (∀ earlier < texts.length + 1,
      Function.update partner? texts.length next earlier ≠ some index) ↔
        (∀ earlier < texts.length, partner? earlier ≠ some index) ∧ next ≠ some index := by
    rw [Nat.forall_lt_succ_right, Function.update_self]
    refine and_congr_left fun _ => forall₂_congr fun earlier hlt => ?_
    rw [Function.update_of_ne (by omega)]
  unfold IsFree
  rw [hall]
  rcases Nat.lt_trichotomy index texts.length with hlt | rfl | hlt
  · rw [List.getElem?_append_left hlt]
    simp [hlt, Nat.lt_succ_of_lt hlt, Nat.ne_of_lt hlt, and_assoc]
  · have hnobody : ∀ earlier < texts.length, partner? earlier ≠ some texts.length := by
      intro earlier hlt hpartner
      have hfree := ((h earlier _).1 hpartner).2.1
      exact absurd hfree.1 (by omega)
    simpa [hnext] using fun _ => hnobody
  · have hnot : ¬ index < texts.length + 1 := by omega
    have hne : index ≠ texts.length := by omega
    have hnotBefore : ¬ index < texts.length := by omega
    simp [hnot, hne, hnotBefore]

/-- The pairing of a sequence leaves these opening parentheses free, of which the last one comes
first. -/
structure Leaves (texts : List String) (partner? : Nat → Option Nat) (free : List Nat) : Prop where
  isPairing : IsPairing texts partner?
  pairwise : free.Pairwise (· > ·)
  mem_iff : ∀ index, index ∈ free ↔ IsFree texts partner? texts.length index

/-- Nothing is paired in an empty sequence. -/
theorem Leaves.nil : Leaves [] (fun _ => none) [] where
  isPairing := by simp [IsPairing]
  pairwise := .nil
  mem_iff := by simp [IsFree]

namespace Leaves

/-- Only places in the sequence are free. -/
theorem lt_length (h : Leaves texts partner? free) (hmem : index ∈ free) : index < texts.length :=
  ((h.mem_iff index).1 hmem).1

/-- The first one that is left is the nearest one. -/
theorem head?_eq_some_iff (h : Leaves texts partner? free) :
    free.head? = some index ↔ IsFree texts partner? texts.length index ∧
      ∀ other, IsFree texts partner? texts.length other → other ≤ index := by
  simp only [← h.mem_iff]
  cases free with
  | nil => simp
  | cons first rest =>
      have hlt : ∀ other ∈ rest, other < first := (List.pairwise_cons.1 h.pairwise).1
      rw [List.head?_cons, Option.some.injEq]
      constructor
      · rintro rfl
        refine ⟨List.mem_cons_self, fun other hother => ?_⟩
        rcases List.mem_cons.1 hother with rfl | hother
        · exact Nat.le_refl _
        · exact Nat.le_of_lt (hlt other hother)
      · rintro ⟨hmem, hle⟩
        rcases List.mem_cons.1 hmem with rfl | hmem
        · rfl
        · exact absurd (hle first List.mem_cons_self) (Nat.not_le.2 (hlt index hmem))

/-- An opening parenthesis is free, a closing one takes the nearest one that is, and other texts
change nothing. -/
theorem concat (h : Leaves texts partner? free) (text : String) :
    ∃ partner?, Leaves (texts ++ [text]) partner?
      (if text = "(" then texts.length :: free else if text = ")" then free.tail else free) := by
  let next := if text = ")" then free.head? else none
  have hnext : ∀ index, next = some index ↔ text = ")" ∧
      IsFree texts partner? texts.length index ∧
        ∀ other, IsFree texts partner? texts.length other → other ≤ index := by
    intro index
    rw [← h.head?_eq_some_iff]
    by_cases hclosing : text = ")" <;> simp [next, hclosing]
  have hnew : next ≠ some texts.length := by
    intro heq
    exact Nat.lt_irrefl _ ((hnext _).1 heq).2.1.1
  refine ⟨Function.update partner? texts.length next, h.isPairing.concat hnext, ?_, ?_⟩
  · split
    · exact List.pairwise_cons.2 ⟨fun index => h.lt_length, h.pairwise⟩
    · split
      · exact h.pairwise.tail
      · exact h.pairwise
  · intro index
    rw [List.length_append, List.length_singleton, isFree_succ h.isPairing hnew, ← h.mem_iff]
    by_cases hopening : text = "("
    · simp [hopening, next]
    · by_cases hclosing : text = ")"
      · -- the partner of a closing parenthesis is the only one that is no longer free
        have hpairwise := h.pairwise
        cases free with
        | nil => simp [hclosing]
        | cons first rest =>
            have hne : index ∈ rest → first ≠ index := by
              intro hmem
              exact Nat.ne_of_gt ((List.pairwise_cons.1 hpairwise).1 index hmem)
            simp only [if_neg hopening, if_pos hclosing, next, List.tail_cons, List.head?_cons,
              List.mem_cons, Option.some.injEq, ne_eq]
            constructor
            · exact fun hmem => .inr ⟨.inr hmem, hne hmem⟩
            · rintro (⟨-, heq⟩ | ⟨rfl | hmem, hother⟩)
              · exact absurd heq hopening
              · exact absurd rfl hother
              · exact hmem
      · simp [hopening, hclosing, next]

/-- The last one that is left is the first opening parenthesis that is nobody's partner. -/
theorem getLast?_eq_some (h : Leaves texts partner? free) (hlast : free.getLast? = some index) :
    texts[index]? = some "(" ∧ (∀ place, partner? place ≠ some index) ∧
      ∀ earlier < index, texts[earlier]? = some "(" → ∃ place, partner? place = some earlier := by
  obtain ⟨front, rfl⟩ := List.getLast?_eq_some_iff.1 hlast
  have hfree := (h.mem_iff index).1 (by simp)
  refine ⟨hfree.2.1, h.isPairing.ne_some_of_isFree hfree, fun earlier hlt hopening => ?_⟩
  by_contra hnobody
  have hmem : earlier ∈ front ++ [index] := by
    rw [h.mem_iff]
    exact ⟨hlt.trans hfree.1, hopening, fun place _ hplace => hnobody ⟨place, hplace⟩⟩
  rcases List.mem_append.1 hmem with hmem | hmem
  · exact absurd ((List.pairwise_append.1 h.pairwise).2.2 earlier hmem index (by simp)) (by omega)
  · exact absurd (List.mem_singleton.1 hmem) (by omega)

end Leaves

end Parenthesis

namespace Lexeme

variable {lexeme : Lexeme} {c : Char}

/-- A proper lexeme holds a parenthesis only if it is this parenthesis. -/
theorem IsProper.count_eq (h : lexeme.IsProper) (hc : Category.ofChar c = .parenthesis) :
    lexeme.text.toList.count c = if lexeme.text = String.ofList [c] then 1 else 0 := by
  by_cases hcategory : lexeme.category = .parenthesis
  · obtain ⟨d, htext, -⟩ := h.exists_parenthesis hcategory
    have hone : lexeme.text = String.ofList [d] := by rw [← htext, String.ofList_toList]
    rw [htext, hone, List.count_singleton]
    simp
  · have hnot : c ∉ lexeme.text.toList := fun hmem => hcategory ((h.ofChar_eq c hmem).symm.trans hc)
    rw [List.count_eq_zero.2 hnot, if_neg]
    rintro heq
    exact hnot (by simp [heq])

/-- A source text has a parenthesis as often among its characters as among its lexemes. -/
theorem count_eq_count_text (hc : Category.ofChar c = .parenthesis) (source : String) :
    source.toList.count c = ((scan source).map text).count (String.ofList [c]) := by
  have hall : ∀ lexemes : List Lexeme, (∀ lexeme ∈ lexemes, lexeme.IsProper) →
      (lexemes.flatMap fun lexeme => lexeme.text.toList).count c =
        (lexemes.map text).count (String.ofList [c]) := by
    intro lexemes hproper
    induction lexemes with
    | nil => rfl
    | cons lexeme rest ih =>
        have hrest := ih fun l hl => hproper l (List.mem_cons_of_mem _ hl)
        rw [List.flatMap_cons, List.count_append, List.map_cons, List.count_cons, hrest,
          (hproper lexeme List.mem_cons_self).count_eq hc, Nat.add_comm]
        simp
  rw [scan, ← hall _ fun _ => isProper_of_mem_scanFrom, flatMap_text_scanFrom,
    List.count_filter (by simp [hc])]

end Lexeme

namespace Balance

open Parenthesis (Leaves IsPairing)

/-- The balance of lexemes knows how many more opening than closing parentheses there are, which
ones are left free, and the last closing one. -/
structure Tracks (lexemes : List Lexeme) (balance : Balance) : Prop where
  depth_eq : balance.depth =
    (lexemes.map Lexeme.text).count "(" - (lexemes.map Lexeme.text).count ")"
  exists_leaves : ∃ partner? free, Leaves (lexemes.map Lexeme.text) partner? free ∧
    balance.unanswered.map some = free.map fun index => lexemes[index]?.map Lexeme.position
  lastClose_eq : balance.lastClose =
    (lexemes.reverse.find? fun lexeme => lexeme.text = ")").map Lexeme.position

/-- The balance goes on to know this when it takes note of a lexeme. -/
theorem Tracks.concat {lexemes : List Lexeme} {balance : Balance} (h : Tracks lexemes balance)
    {lexeme : Lexeme} (hproper : lexeme.IsProper) :
    Tracks (lexemes ++ [lexeme]) (balance.noteLexeme lexeme) := by
  obtain ⟨hdepth, ⟨partner?, free, hleaves, hunanswered⟩, hlast⟩ := h
  have hpositions : (free.map fun index => (lexemes ++ [lexeme])[index]?.map Lexeme.position) =
      free.map fun index => lexemes[index]?.map Lexeme.position := by
    refine List.map_congr_left fun index hmem => ?_
    rw [List.getElem?_append_left (by simpa using hleaves.lt_length hmem)]
  obtain ⟨next?, hnext⟩ := hleaves.concat lexeme.text
  rw [← hpositions] at hunanswered
  rw [balance.noteLexeme_eq hproper]
  by_cases hopening : lexeme.text = "("
  · rw [if_pos hopening]
    refine ⟨?_, ⟨next?, _, by simpa using hnext, ?_⟩, ?_⟩
    · simp [hdepth, hopening]
      omega
    · simpa [hopening] using hunanswered
    · simpa [hopening] using hlast
  · by_cases hclosing : lexeme.text = ")"
    · rw [if_neg hopening, if_pos hclosing]
      refine ⟨?_, ⟨next?, _, by simpa using hnext, ?_⟩, ?_⟩
      · simp [hdepth, hclosing]
        omega
      · simpa [hopening, hclosing, List.map_tail] using congrArg List.tail hunanswered
      · simp [hclosing]
    · rw [if_neg hopening, if_neg hclosing]
      refine ⟨?_, ⟨next?, _, by simpa using hnext, ?_⟩, ?_⟩
      · simp [hdepth, hopening, hclosing]
      · simpa [hopening, hclosing] using hunanswered
      · simpa [hclosing] using hlast

/-- The balance of proper lexemes. -/
theorem tracks_foldl {lexemes : List Lexeme} (h : ∀ lexeme ∈ lexemes, lexeme.IsProper) :
    Tracks lexemes (lexemes.foldl noteLexeme .empty) := by
  induction lexemes using List.reverseRecOn with
  | nil => exact ⟨rfl, ⟨_, _, .nil, rfl⟩, rfl⟩
  | append_singleton lexemes lexeme ih =>
      rw [List.foldl_append]
      exact (ih fun l hl => h l (by simp [hl])).concat (h lexeme (by simp))

namespace Tracks

variable {lexemes : List Lexeme} {balance : Balance}

/-- Nothing is to blame exactly if there are as many parentheses of either kind. -/
theorem culprit?_eq_none_iff (h : Tracks lexemes balance) :
    balance.culprit? = none ↔
      (lexemes.map Lexeme.text).count "(" = (lexemes.map Lexeme.text).count ")" := by
  rw [Balance.culprit?_eq_none_iff, h.depth_eq]
  omega

/-- If there are more opening parentheses, the one to blame has been unanswered for the longest time
and is hence the first one that is nobody's partner. -/
theorem exists_opening {partner? : Nat → Option Nat} (h : Tracks lexemes balance)
    (hsound : IsSound lexemes balance) (hpairing : IsPairing (lexemes.map Lexeme.text) partner?)
    (hlt : (lexemes.map Lexeme.text).count ")" < (lexemes.map Lexeme.text).count "(") :
    ∃ left lexeme right, lexemes = left ++ lexeme :: right ∧ lexeme.text = "(" ∧
      (∀ place, partner? place ≠ some left.length) ∧
      (∀ index < left.length, (lexemes.map Lexeme.text)[index]? = some "(" →
        ∃ place, partner? place = some index) ∧
      balance.culprit? = some lexeme.position := by
  have hpos : 0 < balance.depth := by
    rw [h.depth_eq]
    omega
  obtain ⟨position, hposition⟩ := hsound.exists_getLast?_eq hpos
  obtain ⟨other?, free, hleaves, hunanswered⟩ := h.exists_leaves
  obtain rfl := hpairing.unique hleaves.isPairing
  have hlast := congrArg List.getLast? hunanswered
  rw [List.getLast?_map, List.getLast?_map, hposition] at hlast
  obtain ⟨index, hindex, hfound⟩ := Option.map_eq_some_iff.1 hlast.symm
  obtain ⟨lexeme, hlexeme, rfl⟩ := Option.map_eq_some_iff.1 hfound
  obtain ⟨hopening, hnobody, hearlier⟩ := hleaves.getLast?_eq_some hindex
  obtain ⟨hindexLt, rfl⟩ := List.getElem?_eq_some_iff.1 hlexeme
  have hlength : (lexemes.take index).length = index := by
    rw [List.length_take, Nat.min_eq_left (Nat.le_of_lt hindexLt)]
  refine ⟨lexemes.take index, lexemes[index], lexemes.drop (index + 1), ?_, ?_, ?_, ?_, ?_⟩
  · rw [← List.drop_eq_getElem_cons, List.take_append_drop]
  · simpa [hindexLt] using hopening
  · rwa [hlength]
  · rwa [hlength]
  · rw [culprit?_of_pos hpos, hposition, Option.getD_some]

/-- If there are more closing parentheses, the one to blame has none behind it. -/
theorem exists_closing (h : Tracks lexemes balance) (hsound : IsSound lexemes balance)
    (hlt : (lexemes.map Lexeme.text).count "(" < (lexemes.map Lexeme.text).count ")") :
    ∃ left lexeme right, lexemes = left ++ lexeme :: right ∧ lexeme.text = ")" ∧
      (∀ later ∈ right, later.text ≠ ")") ∧ balance.culprit? = some lexeme.position := by
  have hneg : balance.depth < 0 := by
    rw [h.depth_eq]
    omega
  obtain ⟨position, hposition⟩ := hsound.exists_lastClose_eq hneg
  have hfind := h.lastClose_eq.symm.trans hposition
  obtain ⟨lexeme, hfound, rfl⟩ := Option.map_eq_some_iff.1 hfind
  obtain ⟨htext, right, left, hreverse, hright⟩ := List.find?_eq_some_iff_append.1 hfound
  refine ⟨left.reverse, lexeme, right.reverse, ?_, by simpa using htext, ?_, ?_⟩
  · simpa using congrArg List.reverse hreverse
  · simpa using hright
  · rw [culprit?_of_neg hneg, hposition, Option.getD_some]

end Tracks

end Balance

open Parenthesis (IsPairing)

/-- The count refuses a source text exactly if its opening and closing parentheses are not equally
many, among its characters or among its lexemes. If there are more opening ones, the first one is
blamed that is nobody's partner when every closing parenthesis is paired with the nearest free
opening one before it, and otherwise the last closing one. There is always one to blame. -/
theorem checkBalance_exact (source : String) :
    ∃ lexemes partner?, Lexeme.ofSource source = .ok lexemes ∧
      IsPairing (lexemes.map Lexeme.text) partner? ∧
      (∀ other?, IsPairing (lexemes.map Lexeme.text) other? → other? = partner?) ∧
      source.toList.count '(' = (lexemes.map Lexeme.text).count "(" ∧
      source.toList.count ')' = (lexemes.map Lexeme.text).count ")" ∧
      (checkBalance source = .ok () ↔ source.toList.count '(' = source.toList.count ')') ∧
      (source.toList.count ')' < source.toList.count '(' →
        ∃ left lexeme right, lexemes = left ++ lexeme :: right ∧ lexeme.text = "(" ∧
          (∀ place, partner? place ≠ some left.length) ∧
          (∀ index < left.length, (lexemes.map Lexeme.text)[index]? = some "(" →
            ∃ place, partner? place = some index) ∧
          checkBalance source = .error (.fault .unbalancedParentheses lexeme.position)) ∧
      (source.toList.count '(' < source.toList.count ')' →
        ∃ left lexeme right, lexemes = left ++ lexeme :: right ∧ lexeme.text = ")" ∧
          (∀ later ∈ right, later.text ≠ ")") ∧
          checkBalance source = .error (.fault .unbalancedParentheses lexeme.position)) ∧
      (0 < (Balance.empty.scan .start source.toList).depth →
        (Balance.empty.scan .start source.toList).unanswered.getLast? ≠ none) ∧
      ((Balance.empty.scan .start source.toList).depth < 0 →
        (Balance.empty.scan .start source.toList).lastClose ≠ none) := by
  have hproper : ∀ lexeme ∈ Lexeme.scan source, lexeme.IsProper :=
    fun _ hlexeme => Lexeme.isProper_of_mem_scanFrom hlexeme
  have htracks := Balance.tracks_foldl hproper
  have hsound := (Balance.IsSound.empty _).foldl (List.Subset.refl (Lexeme.scan source)) hproper
  obtain ⟨partner?, free, hleaves, -⟩ := htracks.exists_leaves
  have hopening : source.toList.count '(' = ((Lexeme.scan source).map Lexeme.text).count "(" :=
    Lexeme.count_eq_count_text rfl source
  have hclosing : source.toList.count ')' = ((Lexeme.scan source).map Lexeme.text).count ")" :=
    Lexeme.count_eq_count_text rfl source
  refine ⟨Lexeme.scan source, partner?, Lexeme.ofSource_eq_scan source, hleaves.isPairing,
    fun other? hother => hleaves.isPairing.unique hother, hopening, hclosing, ?_⟩
  rw [hopening, hclosing]
  unfold checkBalance unbalancedAt?
  rw [Balance.scan_eq_foldl, ← Lexeme.scan]
  generalize (Lexeme.scan source).foldl Balance.noteLexeme .empty = balance at htracks hsound
  refine ⟨?_, fun hlt => ?_, fun hlt => ?_, fun hpos => ?_, fun hneg => ?_⟩
  · rw [← htracks.culprit?_eq_none_iff]
    cases balance.culprit? <;> simp
  · obtain ⟨left, lexeme, right, hsplit, htext, hnobody, hearlier, hculprit⟩ :=
      htracks.exists_opening hsound hleaves.isPairing hlt
    exact ⟨left, lexeme, right, hsplit, htext, hnobody, hearlier, by rw [hculprit]⟩
  · obtain ⟨left, lexeme, right, hsplit, htext, hlater, hculprit⟩ :=
      htracks.exists_closing hsound hlt
    exact ⟨left, lexeme, right, hsplit, htext, hlater, by rw [hculprit]⟩
  · exact Option.ne_none_iff_exists'.2 (hsound.exists_getLast?_eq hpos)
  · exact Option.ne_none_iff_exists'.2 (hsound.exists_lastClose_eq hneg)

end Reckoner
