import VideoPage.Proofs.SelectorSeparators
import VideoPage.Proofs.SheetPositions

/-! Which selectors a line of a sheet is taken to hold. All commas of its list are cut at, so
a list whose commas all separate selectors comes out as those selectors under the scope, and
any other list does only where cutting leaves no trace. -/

namespace VideoPage.Proofs.ScopingSeparators
open Stylesheet Selector TextBlanks SelectorLists ListReading SelectorLines LineRuns SheetPositions SelectorSeparators

/-- The selector list of a line and what stands behind the new one. A list ends at a brace, or at
the comma that its line ends in. -/
inductive HoldsList (line : List Char) : List Char → List Char → Prop where
  | opening {head tail : List Char} (split : Scan.code.splitAtBrace? line = some (head, .opening, tail))
      (visible : ¬ Blank head) : HoldsList line (Text.trim head) (' ' :: tail)
  | comma {list : List Char} (none : Scan.code.braces line = []) (ends : Text.trim line = list ++ [',']) :
      HoldsList line list (',' :: Text.ending line)

variable {scope line list rest : List Char}

theorem pieces_comma (text : List Char) : pieces (text ++ [',']) = pieces text := by
  rw [pieces_eq, pieces_eq, List.splitOn_append_cons_self, selectors, selectors, List.map_append, List.filter_append]
  simp [Blank.nil.trim_eq]

theorem pieces_commas {commas : List Char} (all : ∀ c ∈ commas, c = ',') (text : List Char) :
    pieces (text ++ commas) = pieces text := by
  induction commas using List.reverseRecOn with
  | nil => rw [List.append_nil]
  | append_singleton commas c ih =>
    obtain rfl : c = ',' := all c (by simp)
    rw [← List.append_assoc, pieces_comma, ih fun d member => all d (List.mem_append_left _ member)]

theorem listUnder_beforeCommas (list : List Char) : listUnder scope (beforeCommas (list ++ [','])) = listUnder scope list := by
  obtain ⟨commas, cut, all⟩ := beforeCommas_append (list ++ [','])
  have same : pieces (list ++ [',']) = pieces (beforeCommas (list ++ [','])) := by
    conv => lhs; rw [cut]
    exact pieces_commas all _
  rw [listUnder, ← same, pieces_comma, listUnder]

theorem scopeLine_list (holds : HoldsList line list rest) :
    scopeLine scope line = Text.indentation line ++ listUnder scope list ++ rest := by
  cases holds with
  | opening split visible => exact scopeLine_opening split visible
  | comma none ends =>
    have none := SheetScan.splitAtBrace?_eq_none_iff.mpr none
    have last : (Text.trim line).getLast? = some ',' := by rw [ends, List.getLast?_concat]
    rw [scopeLine_comma none last, ends, listUnder_beforeCommas]

/-- The list of every line that holds one, against its separate selectors under the scope. -/
theorem scope_separators {scope css out : String} (done : Stylesheet.scope scope css = .ok out) :
    ∃ lines : List (List Char), out.toList = ['\n'].intercalate lines ∧ lines.length = (linesOf css).length ∧
      ∀ index q line list rest, ReadAt {} (linesOf css) index q line → q.kindOf line = .selectors →
        HoldsList line list rest →
        ∃ new, lines[index]? = some (Text.indentation line ++ new ++ rest) ∧
          ((∀ front back, list = front ++ ',' :: back → (Nesting.read {} front).Separates) →
            new = separatedUnder scope.toList list) ∧
          (Solid scope.toList → ',' ∉ scope.toList →
            (new = separatedUnder scope.toList list ↔ KeepsCommas {} scope.toList list)) := by
  obtain ⟨lines, done, text⟩ := scope_ok_iff.mp done
  refine ⟨lines, text, scopeLines_length done, ?_⟩
  intro index q line list rest read kind holds
  have found := read.line_of_ok done
  rw [lineUnder_selectors kind, scopeLine_list holds] at found
  refine ⟨listUnder scope.toList list, found, ?_, ?_⟩
  · intro separates
    rw [separatedUnder, split_eq_splitOn separates]
    rfl
  · intro name noComma
    exact listUnder_eq_iff name noComma list

/-- A comma in the brackets of a selector: the selector is cut there, and its second part gets the
scope too. -/
theorem scope_separators_in_brackets :
    Stylesheet.scope ".x" ":is(a, b) c, d \x7b\x7d" = .ok ".x :is(a, .x b) c, .x d \x7b\x7d" ∧
      Solid ".x".toList ∧ ',' ∉ ".x".toList ∧
      separatedUnder ".x".toList ":is(a, b) c, d".toList = ".x :is(a, b) c, .x d".toList ∧
      ¬ KeepsCommas {} ".x".toList ":is(a, b) c, d".toList := by
  have done : Stylesheet.scope ".x" ":is(a, b) c, d \x7b\x7d" = .ok ".x :is(a, .x b) c, .x d \x7b\x7d" := by decide +kernel
  have name : Solid ".x".toList := ⟨⟨'.', ['x'], rfl, rfl⟩, ⟨['.'], 'x', rfl, rfl⟩⟩
  have noComma : ',' ∉ ".x".toList := by decide
  have separate : separatedUnder ".x".toList ":is(a, b) c, d".toList = ".x :is(a, b) c, .x d".toList := by decide +kernel
  refine ⟨done, name, noComma, separate, fun keeps => ?_⟩
  obtain ⟨lines, text, size, each⟩ := scope_separators done
  have read : ReadAt {} (linesOf ":is(a, b) c, d \x7b\x7d") 0 {} ":is(a, b) c, d \x7b\x7d".toList :=
    ⟨by decide +kernel, rfl⟩
  have kind : Position.kindOf {} ":is(a, b) c, d \x7b\x7d".toList = .selectors := by decide +kernel
  have split : Scan.code.splitAtBrace? ":is(a, b) c, d \x7b\x7d".toList =
      some (":is(a, b) c, d ".toList, .opening, "\x7b\x7d".toList) := by decide +kernel
  have visible : ¬ Blank ":is(a, b) c, d ".toList := fun blank => absurd (blank ':' (by simp)) (by decide)
  obtain ⟨new, found, -, exact⟩ := each 0 {} _ _ _ read kind (.opening split visible)
  have one : lines.length = 1 := by rw [size]; decide +kernel
  obtain ⟨line, rfl⟩ := List.length_eq_one_iff.mp one
  have list : Text.trim ":is(a, b) c, d ".toList = ":is(a, b) c, d".toList := by decide +kernel
  have same := (exact name noComma).mpr (list ▸ keeps)
  rw [list, separate] at same
  subst same
  obtain rfl := Option.some.inj found
  rw [List.intercalate_singleton] at text
  revert text
  decide +kernel

end VideoPage.Proofs.ScopingSeparators
