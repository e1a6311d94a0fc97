import VideoPage.Proofs.SheetPositions

/-! What scoping leaves alone. A sheet keeps its lines, and only lines that selectors are read
from may change. Those keep their indentation and everything from the first brace on, or,
when the list goes on over the next line, the comma and the blanks behind it. -/

namespace VideoPage.Proofs.ScopingFrame
open Stylesheet TextBlanks SelectorLists SelectorLines LineRuns SheetPositions

/-- No selector list is read from a line that starts inside a comment, is blank, starts with one
of these marks, or stands in a block of declarations. -/
inductive HoldsNoList (q : Position) (line : List Char) : Prop where
  | comment (inside : q.inComment = true)
  | blank (blank : Blank line)
  | atRule (starts : ['@'] <+: Text.trimStart line)
  | closing (starts : ['}'] <+: Text.trimStart line)
  | commentStart (starts : ['/', '*'] <+: Text.trimStart line)
  | block {innermost : Block} (opened : q.blocks.head? = some innermost)
      (kind : innermost = .rule ∨ innermost = .verbatim)

inductive Keeps (line new : List Char) : Prop where
  | whole (same : new = line)
  | fromBrace {head tail : List Char} (first : Scan.code.splitAtBrace? line = some (head, .opening, tail))
      (starts : Text.indentation line <+: new) (ends : tail <:+ new)
  | fromComma (noBrace : Scan.code.braces line = []) (comma : (Text.trim line).getLast? = some ',')
      (starts : Text.indentation line <+: new) (ends : ',' :: Text.ending line <:+ new)

variable {scope line : List Char} {q : Position}

/-- A solid text that a line starts with is still in front when the line has been trimmed. -/
theorem prefix_trim {core : List Char} (solid : Solid core) (starts : core <+: Text.trimStart line) :
    core <+: Text.trim line := by
  obtain ⟨rest, shape⟩ := starts
  obtain ⟨rest', -, trimmed⟩ := trim_starts (indentation_blank line) solid rest
  rw [List.append_assoc, shape, indentation_append_trimStart] at trimmed
  exact ⟨rest', trimmed.symm⟩

theorem HoldsNoList.kindOf_ne (none : HoldsNoList q line) : q.kindOf line ≠ .selectors := by
  intro kind
  obtain ⟨outside, level, -, text⟩ := (kindOf_eq_selectors_iff q line).mp kind
  cases none with
  | comment inside => simp [outside] at inside
  | blank blank => exact text.nonempty blank.trim_eq
  | atRule starts =>
    have first := prefix_trim (Solid.singleton rfl) starts
    simp [← List.isPrefixOf_iff_prefix, text.noAtRule] at first
  | closing starts =>
    have first := prefix_trim (Solid.singleton rfl) starts
    simp [← List.isPrefixOf_iff_prefix, text.noClosing] at first
  | commentStart starts =>
    have slash : Solid ['/'] := Solid.singleton rfl
    have first := prefix_trim (slash.append (Solid.singleton rfl)) starts
    simp [← List.isPrefixOf_iff_prefix, text.noComment] at first
  | block opened kind =>
    obtain ⟨rest, shape⟩ := List.head?_eq_some_iff.mp opened
    rcases kind with rfl | rfl <;> simp [shape, Block.holdsSelectors] at level

theorem keeps_scopeLine (scope line : List Char) : Keeps line (scopeLine scope line) := by
  rcases scopeLine_cases scope line with same | ⟨head, tail, split, -, under⟩ | ⟨none, comma, under⟩
  · exact .whole same
  · refine .fromBrace split ?_ ?_
    · exact ⟨_, by rw [under, List.append_assoc]⟩
    · exact ⟨_, by rw [under, List.append_cons]⟩
  · refine .fromComma (SheetScan.splitAtBrace?_eq_none_iff.mp none) comma ?_ ?_
    · exact ⟨_, by rw [under, List.append_assoc]⟩
    · exact ⟨_, under.symm⟩

theorem keeps_lineUnder (scope : List Char) (q : Position) (line : List Char) : Keeps line (lineUnder scope q line) := by
  by_cases kind : q.kindOf line = .selectors
  · rw [lineUnder_selectors kind]
    exact keeps_scopeLine scope line
  · exact .whole (lineUnder_copied kind)

/-- Line by line, a result is the sheet that it came from, but for the selector lists. -/
theorem scope_frame {scope css out : String} (noBreakScope : '\n' ∉ scope.toList)
    (done : Stylesheet.scope scope css = .ok out) :
    (linesOf out).length = (linesOf css).length ∧
      ∀ index line, (linesOf css)[index]? = some line →
        ∃ q new, ReadAt {} (linesOf css) index q line ∧ (linesOf out)[index]? = some new ∧
          q.inComment = (Scan.code.after (textOf ((linesOf css).take index))).inComment ∧
          (HoldsNoList q line → new = line) ∧ Keeps line new := by
  have lines := linesOf_of_ok noBreakScope done
  refine ⟨scopeLines_length lines, ?_⟩
  intro index line found
  obtain ⟨q, read⟩ := readAt_of_ok lines found
  refine ⟨q, lineUnder scope.toList q line, read, read.line_of_ok lines, through?_inComment read.position, ?_, ?_⟩
  · exact fun none => lineUnder_copied none.kindOf_ne
  · exact keeps_lineUnder scope.toList q line

/-- A list that goes on over the next line, in a sheet whose lines end in two characters. -/
theorem scope_frame_carriage_returns :
    '\n' ∉ ".x".toList ∧
      Stylesheet.scope ".x" "\t.a, /* , */ ,\r\n.b \x7b /* c\r\n \x7d */ \x7d\r\n" =
        .ok "\t.x .a, .x /*, .x */,\r\n.x .b \x7b /* c\r\n \x7d */ \x7d\r\n" ∧
      ∃ q new, ReadAt {} (linesOf "\t.a, /* , */ ,\r\n.b \x7b /* c\r\n \x7d */ \x7d\r\n") 0 q "\t.a, /* , */ ,\r".toList ∧
        (linesOf "\t.x .a, .x /*, .x */,\r\n.x .b \x7b /* c\r\n \x7d */ \x7d\r\n")[0]? = some new ∧
        Keeps "\t.a, /* , */ ,\r".toList new := by
  have noBreakScope : '\n' ∉ ".x".toList := by decide
  have done : Stylesheet.scope ".x" "\t.a, /* , */ ,\r\n.b \x7b /* c\r\n \x7d */ \x7d\r\n" =
      .ok "\t.x .a, .x /*, .x */,\r\n.x .b \x7b /* c\r\n \x7d */ \x7d\r\n" := by decide +kernel
  obtain ⟨-, lines⟩ := scope_frame noBreakScope done
  obtain ⟨q, new, read, found, -, -, keeps⟩ := lines 0 "\t.a, /* , */ ,\r".toList (by decide +kernel)
  exact ⟨noBreakScope, done, q, new, read, found, keeps⟩

end VideoPage.Proofs.ScopingFrame
