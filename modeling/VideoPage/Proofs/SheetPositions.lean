import VideoPage.Proofs.LineRuns

/-! The position at which each line of a sheet is read. It depends on the lines in front and
not on the scope, so what becomes of a line can be told line by line. -/

namespace VideoPage.Proofs.SheetPositions
open Stylesheet SheetScan SelectorLists LineRuns

/-- The position behind some lines; none when they close a block that was never opened. -/
def through? : Position → List (List Char) → Option Position
  | p, [] => some p
  | p, line :: rest => (p.next? line).bind (through? · rest)

/-- The line with this index is read at this position. -/
structure ReadAt (p : Position) (lines : List (List Char)) (index : Nat) (q : Position) (line : List Char) : Prop where
  line : lines[index]? = some line
  position : through? p (lines.take index) = some q

def linesOf (sheet : String) : List (List Char) := sheet.toList.splitOn '\n'

/-- Lines with the breaks that end them. -/
def textOf (lines : List (List Char)) : List Char := lines.flatMap (· ++ ['\n'])

theorem textOf_eq {lines : List (List Char)} (nonempty : lines ≠ []) :
    textOf lines = ['\n'].intercalate lines ++ ['\n'] := by
  induction lines with
  | nil => exact absurd rfl nonempty
  | cons line lines ih =>
    cases lines with
    | nil => simp [textOf]
    | cons next lines =>
      have rest := ih (List.cons_ne_nil next lines)
      rw [List.intercalate_cons_cons, List.append_assoc, ← rest]
      simp [textOf]

/-- The last line break closes no comment. -/
theorem inComment_textOf (s : Scan) (lines : List (List Char)) :
    (s.after (textOf lines)).inComment = (s.after (['\n'].intercalate lines)).inComment := by
  by_cases empty : lines = []
  · rw [empty]
    rfl
  · rw [textOf_eq empty, after_append]
    exact inComment_atLineStart _

section Positions
variable {p q : Position} {lines : List (List Char)} {line : List Char}

theorem through?_cons (through : through? p (line :: lines) = some q) :
    ∃ next, p.next? line = some next ∧ through? next lines = some q :=
  Option.bind_eq_some_iff.mp through

theorem through?_append (p : Position) (first second : List (List Char)) :
    through? p (first ++ second) = (through? p first).bind (through? · second) := by
  induction first generalizing p with
  | nil => rfl
  | cons line first ih =>
    rw [List.cons_append, through?, through?]
    cases p.next? line with
    | none => rfl
    | some next => exact ih next

theorem through?_concat (through : through? p (lines ++ [line]) = some q) :
    ∃ last, through? p lines = some last ∧ last.next? line = some q := by
  rw [through?_append, Option.bind_eq_some_iff] at through
  obtain ⟨last, before, after⟩ := through
  exact ⟨last, before, by simpa [through?] using after⟩

/-- Comments are the same for the whole text as for its lines. -/
theorem through?_inComment (through : through? p lines = some q) :
    q.inComment = (p.scan.after (textOf lines)).inComment := by
  induction lines generalizing p with
  | nil =>
    obtain rfl : p = q := by simpa [through?] using through
    exact (inComment_atLineStart p.inComment).symm
  | cons line lines ih =>
    obtain ⟨next, step, rest⟩ := through?_cons through
    have start : p.scan.after (line ++ ['\n']) = next.scan := by
      rw [after_append, Position.scan, Position.scan, next?_inComment step]
      rfl
    have text : textOf (line :: lines) = (line ++ ['\n']) ++ textOf lines := List.flatMap_cons
    rw [ih rest, text, after_append, start]

theorem readAt_concat {last : List Char} {index : Nat} {r : Position} (through : through? p lines = some q) :
    ReadAt p (lines ++ [last]) index r line ↔
      ReadAt p lines index r line ∨ index = lines.length ∧ r = q ∧ line = last := by
  constructor
  · rintro ⟨found, position⟩
    rcases Nat.lt_trichotomy index lines.length with earlier | rfl | later
    · rw [List.getElem?_append_left earlier] at found
      rw [List.take_append_of_le_length (Nat.le_of_lt earlier)] at position
      exact Or.inl ⟨found, position⟩
    · rw [List.take_left, through, Option.some.injEq] at position
      simp only [List.getElem?_concat_length, Option.some.injEq] at found
      exact Or.inr ⟨rfl, position.symm, found.symm⟩
    · rw [List.getElem?_eq_none (by simpa using later)] at found
      cases found
  · rintro (⟨found, position⟩ | ⟨rfl, rfl, rfl⟩)
    · obtain ⟨inside, -⟩ := List.getElem?_eq_some_iff.mp found
      refine ⟨?_, ?_⟩
      · rw [List.getElem?_append_left inside, found]
      · rw [List.take_append_of_le_length (Nat.le_of_lt inside), position]
    · refine ⟨List.getElem?_concat_length, ?_⟩
      rw [List.take_left, through]

theorem ReadAt.index_lt {index : Nat} (read : ReadAt p lines index q line) : index < lines.length :=
  (List.getElem?_eq_some_iff.mp read.line).1

end Positions

section Results
variable {scope : List Char} {p q : Position} {lines out : List (List Char)} {number : Nat}

/-- A result does not depend on how many lines came before. -/
theorem scopeLines_number (other : Nat) (done : scopeLines scope number p lines = .ok out) :
    scopeLines scope other p lines = .ok out := by
  induction lines generalizing number other p out with
  | nil => exact done
  | cons line lines ih =>
    obtain ⟨next, rest, step, later, rfl⟩ := scopeLines_cons_ok done
    simp only [scopeLines, step, ih (other + 1) later, Except.map]

theorem through_of_ok (done : scopeLines scope number p lines = .ok out) :
    ∃ q, through? p lines = some q ∧ q.blocks = [] ∧ Through scope p lines out q := by
  induction lines generalizing number p out with
  | nil =>
    obtain ⟨closed, rfl⟩ := scopeLines_nil_ok done
    exact ⟨p, rfl, closed, Through.nil p⟩
  | cons line lines ih =>
    obtain ⟨next, rest, step, later, rfl⟩ := scopeLines_cons_ok done
    obtain ⟨q, through, closed, run⟩ := ih later
    exact ⟨q, by rw [through?, step]; exact through, closed, (Through.line step).cons run⟩

theorem readAt_of_ok (done : scopeLines scope number p lines = .ok out) {index : Nat} {line : List Char}
    (found : lines[index]? = some line) : ∃ q, ReadAt p lines index q line := by
  obtain ⟨last, through, -⟩ := through_of_ok done
  rw [← List.take_append_drop index lines, through?_append] at through
  obtain ⟨q, position, -⟩ := Option.bind_eq_some_iff.mp through
  exact ⟨q, found, position⟩

/-- What a line comes out as is decided at the position that it is read at. -/
theorem ReadAt.line_of_ok {index : Nat} {line : List Char} (read : ReadAt p lines index q line)
    (done : scopeLines scope number p lines = .ok out) : out[index]? = some (lineUnder scope q line) := by
  induction lines generalizing number p index out with
  | nil => exact absurd read.line (by simp)
  | cons first lines ih =>
    obtain ⟨next, rest, step, later, rfl⟩ := scopeLines_cons_ok done
    cases index with
    | zero =>
      obtain rfl : p = q := by simpa [through?] using read.position
      obtain rfl : first = line := by simpa using read.line
      rfl
    | succ index =>
      have position := read.position
      rw [List.take_succ_cons, through?, step] at position
      have found : ReadAt next lines index q line := ⟨by simpa using read.line, position⟩
      have rest := ih found later
      simpa using rest

end Results

section Sheets
variable {scope css out : String} {lines : List (List Char)}

theorem linesOf_ne_nil (sheet : String) : linesOf sheet ≠ [] := List.splitOn_ne_nil '\n' sheet.toList

/-- A sheet is scoped when its lines are, and the lines that come out make up the result. -/
theorem scope_ok_iff : Stylesheet.scope scope css = .ok out ↔
    ∃ lines, scopeLines scope.toList 1 {} (linesOf css) = .ok lines ∧ out.toList = ['\n'].intercalate lines := by
  refine ⟨scope_ok, ?_⟩
  rintro ⟨lines, done, text⟩
  rw [linesOf] at done
  rw [Stylesheet.scope, scopeText, done, Except.map, Except.map, ← text, String.ofList_toList]

/-- With a scope on one line, the lines of the result are those that the lines of the sheet come
out as. -/
theorem linesOf_of_ok (noBreakScope : '\n' ∉ scope.toList) (done : Stylesheet.scope scope css = .ok out) :
    scopeLines scope.toList 1 {} (linesOf css) = .ok (linesOf out) := by
  obtain ⟨lines, done, text⟩ := scope_ok_iff.mp done
  have noBreaks := scopeLines_noBreak noBreakScope (fun line member => (splitOn_parts member).1) done
  have nonempty : lines ≠ [] := by
    rintro rfl
    exact linesOf_ne_nil css (List.length_eq_zero_iff.mp (scopeLines_length done).symm)
  have same : linesOf out = lines := by rw [linesOf, text, List.splitOn_intercalate '\n' noBreaks nonempty]
  rw [same]
  exact done

/-- A comment is open behind a sheet when it is behind its last line. -/
theorem through_sheet_inComment {q : Position} (through : through? {} (linesOf css) = some q) :
    q.inComment = (Scan.code.after css.toList).inComment := by
  rw [through?_inComment through, inComment_textOf, linesOf, List.intercalate_splitOn]
  rfl

end Sheets

end VideoPage.Proofs.SheetPositions
