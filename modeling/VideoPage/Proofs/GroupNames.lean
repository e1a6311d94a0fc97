import VideoPage.Proofs.SelectorLists
import VideoPage.Proofs.SheetLayout

/-! Which at-rules are entered. The program takes the name of an at-rule to end at a blank, a
parenthesis or a brace, so whatever it takes for a group is one. A group with something else
right behind its name is taken for another at-rule. -/

namespace VideoPage.Proofs.GroupNames
open Stylesheet TextBlanks SelectorLists CssSyntax SheetLayout

/-- A character that the name of an at-rule is taken to end at. -/
def stops (c : Char) : Bool := Text.isBlank c || c = '(' || c = '{'

theorem atRuleName_eq (text : List Char) : atRuleName text = text.takeWhile fun c => !stops c := by
  rw [atRuleName]
  congr 1
  funext c
  rw [stops, Bool.or_right_comm]

theorem atRuleName_append {core rest : List Char} (ends : ∀ c ∈ rest.head?, stops c = true) :
    atRuleName (core ++ rest) = atRuleName core := by
  simp only [atRuleName_eq]
  induction core with
  | nil =>
    cases rest with
    | nil => rfl
    | cons c rest => simp [ends c rfl]
  | cons c core ih => simp only [List.cons_append, List.takeWhile_cons, ih]

theorem atRuleName_eq_iff {name text : List Char} (plain : ∀ c ∈ name, stops c = false)
    (ended : ∃ c ∈ text, stops c = true) :
    atRuleName text = name ↔ ∃ c rest, text = name ++ c :: rest ∧ stops c = true := by
  rw [atRuleName_eq]
  constructor
  · rintro rfl
    have whole : text.takeWhile (fun c => !stops c) ++ text.dropWhile (fun c => !stops c) = text :=
      List.takeWhile_append_dropWhile
    cases after : text.dropWhile fun c => !stops c with
    | nil =>
      obtain ⟨c, member, stop⟩ := ended
      simpa [stop] using List.dropWhile_eq_nil_iff.mp after c member
    | cons c rest =>
      have first := List.head?_dropWhile_not (fun c => !stops c) text
      exact ⟨c, rest, by rw [← after, whole], by simpa [after] using first⟩
  · rintro ⟨c, rest, rfl, stop⟩
    rw [List.takeWhile_append_of_pos (by simpa using plain), List.takeWhile_cons_of_neg (by simp [stop]), List.append_nil]

section Groups
variable (prelude : Prelude)

theorem conditionalNames_plain : ∀ name ∈ Prelude.conditionalNames, ∀ c ∈ name, stops c = false := by
  have plain : Prelude.conditionalNames.all (·.all (!stops ·)) = true := by cbv
  simpa only [List.all_eq_true, Bool.not_eq_true'] using plain

theorem entered_iff : prelude.entered = true ↔
    ∃ name ∈ Prelude.conditionalNames, ∃ c rest, prelude.text = name ++ c :: rest ∧ stops c = true := by
  simp only [Prelude.entered, List.any_eq_true]
  refine exists_congr fun name => and_congr_right fun _ => ?_
  constructor
  · intro found
    split at found
    next c rest same => exact ⟨c, rest, (List.isPrefixOf?_eq_some_iff_append_eq.mp same).symm, found⟩
    next => cases found
  · rintro ⟨c, rest, whole, stop⟩
    rw [List.isPrefixOf?_eq_some_iff_append_eq.mpr whole.symm]
    exact stop

/-- Only groups are entered. -/
theorem conditional_of_entered (entered : prelude.entered = true) : prelude.Conditional := by
  obtain ⟨name, known, c, rest, whole, stop⟩ := (entered_iff prelude).mp entered
  refine ⟨name, known, c :: rest, whole, ?_⟩
  simp only [stops, Bool.or_eq_true, decide_eq_true_eq] at stop
  rcases stop with (blank | rfl) | rfl
  · exact Or.inl ⟨c, rfl, blank⟩
  · exact Or.inr (not_goesOn_cons (by decide) (by decide) (by decide))
  · exact Or.inr (not_goesOn_cons (by decide) (by decide) (by decide))

/-- The kind of block that the at-rule opens. -/
def opened : Block := if prelude.entered then .group else .verbatim

theorem text_brace : '{' ∈ prelude.text := by
  obtain ⟨front, joined⟩ : ∃ front, joinLines prelude.lines = front ++ (prelude.last.text ++ '{' :: prelude.ending.text) := by
    by_cases early : prelude.early = []
    · exact ⟨[], by simp [Prelude.lines, early, joinLines]⟩
    · refine ⟨joinLines (prelude.early.map (·.text)) ++ ['\n'], ?_⟩
      rw [joinLines, Prelude.lines, intercalate_append _ (by simpa using early) (by simp), List.intercalate_singleton]
      rfl
  have member : '{' ∈ joinLines prelude.lines := by simp [joined]
  rw [← indentation_append_trimStart (joinLines prelude.lines)] at member
  exact (List.mem_append.mp member).resolve_left ((indentation_blank _).not_mem rfl)

theorem ofAtRule_text : Block.ofAtRule prelude.text = opened prelude := by
  have named : ∀ name ∈ Prelude.conditionalNames, atRuleName prelude.text = name ↔
      ∃ c rest, prelude.text = name ++ c :: rest ∧ stops c = true :=
    fun name known => atRuleName_eq_iff (conditionalNames_plain name known) ⟨'{', text_brace prelude, rfl⟩
  have same : groupNames.any (·.toList = atRuleName prelude.text) = true ↔ prelude.entered = true := by
    rw [entered_iff, List.any_eq_true]
    constructor
    · rintro ⟨name, member, found⟩
      have known : name.toList ∈ Prelude.conditionalNames := List.mem_map_of_mem member
      exact ⟨name.toList, known, (named _ known).mp (of_decide_eq_true found).symm⟩
    · rintro ⟨name, known, found⟩
      obtain ⟨written, member, rfl⟩ := List.mem_map.mp (show name ∈ groupNames.map String.toList from known)
      exact ⟨written, member, decide_eq_true ((named _ known).mpr found).symm⟩
  rw [Block.ofAtRule, opened, Bool.eq_iff_iff.mpr same]

/-- The name is all on the first line. -/
theorem ofAtRule_first {first : List Char} {more : List (List Char)} (lines : prelude.lines = first :: more)
    (visible : ¬ Blank first) : Block.ofAtRule (Text.trim first) = opened prelude := by
  obtain ⟨tail, joined, ends⟩ : ∃ tail, joinLines (first :: more) = first ++ tail ∧ ∀ c ∈ tail.head?, Text.isBlank c = true := by
    cases more with
    | nil => exact ⟨[], by simp [joinLines], by simp⟩
    | cons next more =>
      refine ⟨'\n' :: joinLines (next :: more), by simp [joinLines, List.intercalate_cons_cons], ?_⟩
      rintro c ⟨⟩
      rfl
  have text : prelude.text = Text.trim first ++ (Text.ending first ++ tail) := by
    have start := @trimStart_around _ _ (Text.ending first ++ tail) (indentation_blank first) (solid_trim visible)
    rwa [← List.append_assoc, around_trim visible, ← joined, ← lines] at start
  have behind : ∀ c ∈ (Text.ending first ++ tail).head?, stops c = true := by
    intro c member
    have blank : Text.isBlank c = true := by
      cases blanks : Text.ending first with
      | nil => exact ends c (by simpa [blanks] using member)
      | cons d rest =>
        obtain rfl : d = c := by simpa [blanks] using member
        exact ending_blank first d (blanks ▸ List.mem_cons_self)
    simp [stops, blank]
  rw [← ofAtRule_text, text, Block.ofAtRule, Block.ofAtRule, atRuleName_append behind]

end Groups

end VideoPage.Proofs.GroupNames
