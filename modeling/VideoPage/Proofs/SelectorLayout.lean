import VideoPage.Proofs.LineRuns
import VideoPage.Proofs.SheetLayout

/-! The selector lists of a sheet that is well laid out: they show no structure, they are
read as the selectors they were written from, and they come out with new commas. -/

namespace VideoPage.Proofs.SelectorLayout
open Stylesheet Selector TextBlanks SheetScan SheetBraces SelectorLists SelectorLines LineRuns SheetLayout

theorem blanks_plain (space : Space) : ∀ c ∈ space.text, Plain c := plain_of_blank space.noBreak space.blank

section Entries

theorem entry_scan (entry : Entry) : Scan.code.braces entry.text = [] ∧ Closed entry.text := by
  obtain ⟨braces, opened⟩ := scan_around (s := .code) entry.selector.text trivial rfl
    (blanks_plain entry.before) (blanks_plain entry.after)
  exact ⟨braces.trans (braces_of_structural_nil entry.noBrace), opened.trans entry.closed⟩

theorem entry_free (entry : Entry) : ',' ∉ entry.text ∧ '\n' ∉ entry.text := by
  have blanks : ∀ space : Space, ',' ∉ space.text := fun space => space.blank.not_mem rfl
  constructor
  · intro member
    rcases List.mem_append.mp member with member | member
    · rcases List.mem_append.mp member with member | member
      · exact blanks entry.before member
      · exact entry.noComma member
    · exact blanks entry.after member
  · intro member
    rcases List.mem_append.mp member with member | member
    · rcases List.mem_append.mp member with member | member
      · exact entry.before.noBreak member
      · exact entry.selector.noBreak member
    · exact entry.after.noBreak member

theorem entry_trim (entry : Entry) : Text.trim entry.text = entry.selector.text :=
  trim_around entry.before.blank entry.solid entry.after.blank

theorem entries_scan (entries : List Entry) :
    Scan.code.braces ([','].intercalate (entries.map Entry.text)) = [] ∧
      Closed ([','].intercalate (entries.map Entry.text)) := by
  induction entries with
  | nil => exact ⟨rfl, rfl⟩
  | cons entry entries ih =>
    obtain ⟨quiet, closed⟩ := entry_scan entry
    cases entries with
    | nil => simpa using ⟨quiet, closed⟩
    | cons next entries =>
      have comma : (Scan.code.after entry.text).step ',' = .code :=
        (step_plain (Sound.after (s := .code) trivial entry.text) plain_comma).trans closed
      have none : (Scan.code.after entry.text).brace? ',' = none := brace?_plain plain_comma
      rw [List.map_cons, List.map_cons, List.intercalate_cons_cons, List.append_assoc, List.singleton_append, Closed,
        braces_append, quiet, braces_cons, none, comma, after_append, after_cons, comma]
      exact ih

theorem entries_end {entries : List Entry} (nonempty : entries ≠ []) :
    ∀ c ∈ ([','].intercalate (entries.map Entry.text)).getLast?, c ≠ ',' := by
  rintro c last rfl
  obtain ⟨-, part, member, front, whole⟩ := intercalate_ends [','] (show entries.map Entry.text ≠ [] by simpa using nonempty)
  obtain ⟨entry, -, rfl⟩ := List.mem_map.mp member
  have visible : entry.text ≠ [] := by simp [Entry.text, entry.solid.ne_nil]
  rw [whole, List.getLast?_append] at last
  cases ends : entry.text.getLast? with
  | none => exact visible (List.getLast?_eq_none_iff.mp ends)
  | some c =>
    obtain rfl : c = ',' := by simpa [ends] using last
    exact (entry_free entry).1 (List.mem_of_getLast? ends)

end Entries

section List
variable (list : SelectorList)

theorem list_noBreak : '\n' ∉ list.text := by
  have parts : ∀ entries : List Entry, '\n' ∉ [','].intercalate (entries.map Entry.text) := by
    intro entries
    induction entries with
    | nil => simp
    | cons entry entries ih =>
      cases entries with
      | nil => simpa using (entry_free entry).2
      | cons next entries =>
        rw [List.map_cons, List.map_cons, List.intercalate_cons_cons]
        simp only [List.mem_append, not_or]
        exact ⟨⟨(entry_free entry).2, by decide⟩, ih⟩
  exact parts list.entries

theorem list_pieces : pieces list.text = list.entries.map (·.selector.text) := by
  have parts : list.text.splitOn ',' = list.entries.map Entry.text := by
    refine List.splitOn_intercalate ',' ?_ (by simp [SelectorList.entries])
    intro part member
    obtain ⟨entry, -, rfl⟩ := List.mem_map.mp member
    exact (entry_free entry).1
  have trimmed : (list.entries.map Entry.text).map Text.trim = list.entries.map (·.selector.text) := by
    rw [List.map_map]
    apply List.map_congr_left
    intro entry _
    exact entry_trim entry
  rw [pieces, parts, trimmed, List.filter_eq_self]
  intro part member
  obtain ⟨entry, -, rfl⟩ := List.mem_map.mp member
  simpa using entry.solid.ne_nil

/-- Behind the first selector comes a blank or a comma, if anything. -/
theorem list_starts : ∃ rest, list.text = list.first.before.text ++ list.first.selector.text ++ rest ∧
    ∀ c ∈ rest.head?, Text.isBlank c = true ∨ c = ',' := by
  have blank : ∀ c ∈ list.first.after.text.head?, Text.isBlank c = true ∨ c = ',' :=
    fun c member => Or.inl (list.first.after.blank c (List.mem_of_mem_head? member))
  cases others : list.others with
  | nil => exact ⟨list.first.after.text, by simp [SelectorList.text, SelectorList.entries, others, Entry.text], blank⟩
  | cons next more =>
    refine ⟨list.first.after.text ++ ',' :: [','].intercalate ((next :: more).map Entry.text), ?_, ?_⟩
    · simp [SelectorList.text, SelectorList.entries, others, Entry.text, List.intercalate_cons_cons]
    · cases after : list.first.after.text with
      | nil => simp
      | cons c text => simpa [after] using blank

/-- A line that goes on after its list with a comma or a brace holds selectors. -/
theorem kindOf_list {c : Char} {blocks : List Block} (mark : c = ',' ∨ c = '{') (tail : List Char)
    (level : Block.holdsSelectors blocks = true) :
    (between blocks).kindOf (list.text ++ c :: tail) = .selectors := by
  obtain ⟨rest, whole, follows⟩ := list_starts list
  obtain ⟨more, part, trimmed⟩ := trim_starts list.first.before.blank list.first.solid (rest ++ c :: tail)
  have noStar : more.head? ≠ some '*' := by
    intro star
    have first := List.singleton_prefix_iff_head?_eq_some.mp ((List.singleton_prefix_iff_head?_eq_some.mpr star).trans part)
    cases rest with
    | nil => rcases mark with rfl | rfl <;> simp at first
    | cons d rest =>
      obtain rfl : d = '*' := by simpa using first
      rcases follows '*' rfl with blank | same
      · cases blank
      · cases same
  have noClosing : list.first.selector.text.head? ≠ some '}' := by
    intro closing
    obtain ⟨selector, text⟩ := List.head?_eq_some_iff.mp closing
    have none := braces_of_structural_nil list.first.noBrace
    rw [text] at none
    cases none
  have starts := startsRule_append list.first.solid.ne_nil list.first.noComment noClosing list.first.noAtRule noStar
  refine (kindOf_eq_selectors_iff _ _).mpr ⟨rfl, level, rfl, ?_⟩
  rw [whole, List.append_assoc, trimmed]
  exact starts

theorem list_indentation (tail : List Char) : Text.indentation (list.text ++ tail) = list.first.before.text := by
  obtain ⟨rest, whole, -⟩ := list_starts list
  rw [whole, List.append_assoc]
  exact indentation_around list.first.before.blank list.first.solid

theorem list_visible : ¬ Blank list.text := by
  intro blank
  obtain ⟨rest, whole, -⟩ := list_starts list
  apply list.first.solid.not_blank
  intro c member
  exact blank c (whole ▸ List.mem_append_left rest (List.mem_append_right _ member))

theorem list_scan : Scan.code.braces list.text = [] ∧ Closed list.text := entries_scan list.entries

theorem list_under (scope : List Char) {text : List Char} (same : pieces text = pieces list.text) :
    list.first.before.text ++ listUnder scope text = list.under scope := by
  rw [listUnder, same, list_pieces, List.map_map]
  rfl

theorem scopeLine_list_opening (scope tail : List Char) :
    scopeLine scope (list.text ++ '{' :: tail) = list.under scope ++ ' ' :: '{' :: tail := by
  obtain ⟨quiet, closed⟩ := list_scan list
  have split := splitAtBrace?_append tail quiet (brace?_of_calm_code closed)
  rw [scopeLine_opening split (list_visible list), list_indentation, list_under list scope (pieces_trim list.text)]

theorem list_comma_scan (ending : Space) :
    Scan.code.braces (list.text ++ ',' :: ending.text) = [] ∧ Closed (list.text ++ ',' :: ending.text) := by
  obtain ⟨quiet, closed⟩ := list_scan list
  have plain : ∀ c ∈ ',' :: ending.text, Plain c := List.forall_mem_cons.mpr ⟨plain_comma, blanks_plain ending⟩
  obtain ⟨braces, opened⟩ := @scan_around .code [] _ list.text trivial rfl (by simp) plain
  exact ⟨braces.trans quiet, opened.trans closed⟩

theorem scopeLine_list_comma (scope : List Char) (ending : Space) :
    scopeLine scope (list.text ++ ',' :: ending.text) = list.under scope ++ ',' :: ending.text := by
  obtain ⟨rest, whole, -⟩ := list_starts list
  have solid : Solid (list.first.selector.text ++ rest ++ [',']) := list.first.solid.around solid_comma rest
  have line : list.text ++ ',' :: ending.text =
      list.first.before.text ++ (list.first.selector.text ++ rest ++ [',']) ++ ending.text := by
    rw [whole]
    simp
  have trimmed : Text.trim (list.text ++ ',' :: ending.text) = list.first.selector.text ++ rest ++ [','] := by
    rw [line]
    exact trim_around list.first.before.blank solid ending.blank
  have behind : Text.ending (list.text ++ ',' :: ending.text) = ending.text := by
    rw [line]
    exact ending_around ending.blank solid
  have cut : beforeCommas (list.first.selector.text ++ rest ++ [',']) = list.first.selector.text ++ rest := by
    apply beforeCommas_comma
    intro c last
    apply entries_end (show list.entries ≠ [] from List.cons_ne_nil _ _) c
    change list.text.getLast? = some c
    rw [whole, List.append_assoc, List.getLast?_append, Option.mem_def.mp last]
    rfl
  have same : pieces (list.first.selector.text ++ rest) = pieces list.text := by
    have around := pieces_around list.first.before.blank (list.first.selector.text ++ rest) Blank.nil
    rw [List.append_nil, ← List.append_assoc, ← whole] at around
    exact around.symm
  rw [scopeLine_comma (splitAtBrace?_eq_none_iff.mpr (list_comma_scan list ending).1) (by simp [trimmed]), trimmed, cut,
    list_indentation, behind, list_under list scope same]

end List

end VideoPage.Proofs.SelectorLayout
